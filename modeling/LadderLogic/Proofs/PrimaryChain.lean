/-
A trace is the longest chain of first inputs without a repeat.

From a seed, first inputs name one identifier after another.  This chain is a sequence of
its own, which may run in a circle for ever; `trace` walks along it with a list of
what it visited.  The link between the two is `Walk`, a run of the trace: the elements it
passes, the identifier it stops at and the reason.  Every trace has a walk (`exists_walk`),
and one induction over walks gives each of:

  * the elements passed are those that the chain names (`Walk.chainElements_eq`);
  * they are found, fed and no rails (`Walk.passes`), and distinct (`Walk.nodup`);
  * the walk stops for a reason that holds (`Walk.stops`);
  * what can be seen from the seed is the chain up to there (`Walk.upstream_iff`);
  * a loop that keeps what it visited and recorded takes one round for each
    (`Walk.rounds_eq`).
-/

import LadderLogic.Proofs.Tracing
import Mathlib.Data.List.Forall2
import Mathlib.Data.List.Perm.Subperm

namespace LadderLogic

theorem Element.reverse_contacts (e : Element) : e.contacts.reverse = e.contacts := by
  cases h : e.kind.isDrawn with
  | true => rw [contacts_of_drawn h, List.reverse_singleton]
  | false => rw [contacts_of_not_drawn h, List.reverse_nil]

/-- Elements in series put the contacts and coils among them on a branch. -/
theorem Element.flatMap_contacts (es : List Element) :
    es.flatMap Element.contacts =
      (es.filter fun e => e.kind = .contact ∨ e.kind = .coil).map Element.contact := by
  induction es with
  | nil => rfl
  | cons e es ih =>
      rw [List.flatMap_cons, ih]
      have hdrawn := ElementKind.isDrawn_iff e.kind
      cases h : e.kind.isDrawn with
      | true =>
        have hkind := hdrawn.1 h
        simp [contacts_of_drawn h, hkind]
      | false =>
        have hkind : ¬ (e.kind = .contact ∨ e.kind = .coil) := by
          rw [← hdrawn, h]
          exact Bool.false_ne_true
        simp [contacts_of_not_drawn h, hkind]

namespace ElementMap

variable {m : ElementMap} {visited : List String} {seed id next x : String} {e : Element}
  {es : List Element} {ending : TraceEnd} {k : Nat}

/-! ## The chain of first inputs -/

/-- The identifier that the first input of an element names. -/
def next? (m : ElementMap) (id : String) : Option String := (m.find? id).bind Element.primary?

/-- The identifier that is so many first inputs away from a seed, as long as there are so
many. -/
def chain (m : ElementMap) (seed : String) : Nat → Option String
  | 0 => some seed
  | k + 1 => (m.chain seed k).bind m.next?

/-- The elements among the first identifiers of the chain, as many as counted. -/
def chainElements (m : ElementMap) (seed : String) (count : Nat) : List Element :=
  (List.range count).filterMap fun k => (m.chain seed k).bind m.find?

/-- The chain comes to a place where a trace has to end, and this is why. -/
def EndsAt (m : ElementMap) (seed : String) (k : Nat) : TraceEnd → Prop
  | .cycle => ∃ x, m.chain seed k = some x ∧ ∃ j < k, m.chain seed j = some x
  | .dangling => ∃ x, m.chain seed k = some x ∧ m.find? x = none
  | .rail => ∃ x e, m.chain seed k = some x ∧ m.find? x = some e ∧ e.kind = .leftRail
  | .unfed => ∃ x e, m.chain seed k = some x ∧ m.find? x = some e ∧ e.kind ≠ .leftRail ∧
      e.inputs = []

theorem chain_succ_front (seed : String) (k : Nat) :
    m.chain seed (k + 1) = (m.next? seed).bind fun y => m.chain y k := by
  induction k with
  | zero => simp [chain]
  | succ k ih =>
      rw [chain, ih, Option.bind_assoc]
      rfl

/-- The chain from a fed element goes on as the chain from its first input. -/
theorem chain_succ_of_fed (found : m.find? id = some e) (fed : e.primary? = some next) :
    m.chain id (k + 1) = m.chain next k := by
  rw [chain_succ_front, next?, found, Option.bind_some, fed, Option.bind_some]

theorem chainElements_succ_of_fed (found : m.find? id = some e) (fed : e.primary? = some next) :
    m.chainElements id (k + 1) = e :: m.chainElements next k := by
  rw [chainElements, List.range_succ_eq_map, List.filterMap_cons_some (b := e) (by simpa [chain]),
    List.filterMap_map]
  congr 1
  -- place by place, the chain behind `id` is the chain from `next`
  apply List.filterMap_congr
  intro j _
  simp only [Function.comp_apply, chain_succ_of_fed found fed]

theorem chainElements_succ (hx : m.chain seed k = some x) (found : m.find? x = some e) :
    m.chainElements seed (k + 1) = m.chainElements seed k ++ [e] := by
  simp [chainElements, List.range_succ, hx, found]

/-! ## Walks -/

/-- A trace that has visited the identifiers stops at the next one, and this is why. -/
def Stops (m : ElementMap) (visited : List String) (id : String) : TraceEnd → Prop
  | .cycle => id ∈ visited
  | .dangling => id ∉ visited ∧ m.find? id = none
  | .rail => id ∉ visited ∧ ∃ e, m.find? id = some e ∧ e.kind = .leftRail
  | .unfed => id ∉ visited ∧ ∃ e, m.find? id = some e ∧ e.kind ≠ .leftRail ∧ e.primary? = none

/-- A trace that has visited the identifiers passes the elements and stops. -/
inductive Walk (m : ElementMap) : List String → String → List Element → String → TraceEnd → Prop
  | stop {visited : List String} {id : String} {ending : TraceEnd}
      (stops : m.Stops visited id ending) : Walk m visited id [] id ending
  | pass {visited : List String} {id next x : String} {e : Element} {es : List Element}
      {ending : TraceEnd} (new : id ∉ visited) (found : m.find? id = some e)
      (notRail : e.kind ≠ .leftRail) (fed : e.primary? = some next)
      (rest : Walk m (id :: visited) next es x ending) : Walk m visited id (e :: es) x ending

/-- The element that a trace is at when it stops, if it counts: one that nothing feeds. -/
def lastElement (m : ElementMap) (x : String) (ending : TraceEnd) : List Element :=
  if ending = .unfed then (m.find? x).toList else []

/-- Every trace is a walk, and its branch is what the walk met. -/
theorem exists_walk (m : ElementMap) (visited : List String) (id : String) :
    ∃ es x, m.Walk visited id es x (m.traceFrom visited id).ending ∧
      (m.traceFrom visited id).branch =
        ((es ++ m.lastElement x (m.traceFrom visited id).ending).flatMap
          Element.contacts).reverse := by
  induction visited, id using traceInduction m with
  | seen visited id seen =>
      rw [traceFrom_of_visited seen]
      exact ⟨[], id, .stop seen, rfl⟩
  | missing visited id new missing =>
      rw [traceFrom_of_missing new missing]
      exact ⟨[], id, .stop ⟨new, missing⟩, rfl⟩
  | rail visited id e new found isRail =>
      rw [traceFrom_of_rail new found isRail]
      exact ⟨[], id, .stop ⟨new, e, found, isRail⟩, rfl⟩
  | unfed visited id e new found notRail unfed =>
      rw [traceFrom_of_unfed new found notRail unfed]
      refine ⟨[], id, .stop ⟨new, e, found, notRail, unfed⟩, ?_⟩
      simp [lastElement, found, Element.reverse_contacts]
  | fed visited id e next new found notRail fed ih =>
      -- the trace puts `e` behind what came from the rail; the walk puts it in front
      obtain ⟨es, x, hwalk, hbranch⟩ := ih
      rw [traceFrom_of_fed new found notRail fed]
      refine ⟨e :: es, x, .pass new found notRail fed hwalk, ?_⟩
      rw [hbranch, List.cons_append, List.flatMap_cons, List.reverse_append,
        Element.reverse_contacts]

namespace Walk

theorem chain_length (h : m.Walk visited id es x ending) : m.chain id es.length = some x := by
  induction h with
  | stop _ => rfl
  | pass _ found _ fed _ ih => rw [List.length_cons, chain_succ_of_fed found fed, ih]

/-- The elements passed are those that the chain names. -/
theorem chainElements_eq (h : m.Walk visited id es x ending) :
    m.chainElements id es.length = es := by
  induction h with
  | stop _ => rfl
  | pass _ found _ fed _ ih => rw [List.length_cons, chainElements_succ_of_fed found fed, ih]

theorem chain_eq (h : m.Walk visited id es x ending) (hk : k < es.length) :
    m.chain id k = (es.map Element.id)[k]? := by
  induction h generalizing k with
  | stop _ => exact absurd hk (Nat.not_lt_zero k)
  | pass _ found _ fed _ ih =>
      cases k with
      | zero => rw [chain, List.map_cons, List.getElem?_cons_zero, id_of_find? found]
      | succ k =>
          rw [chain_succ_of_fed found fed, List.map_cons, List.getElem?_cons_succ]
          exact ih (Nat.lt_of_succ_lt_succ hk)

/-- What a walk passes is found, no rail, and fed. -/
theorem passes (h : m.Walk visited id es x ending) :
    ∀ e ∈ es, m.find? e.id = some e ∧ e.kind ≠ .leftRail ∧ e.inputs ≠ [] := by
  induction h with
  | stop _ => exact List.forall_mem_nil _
  | pass _ found notRail fed _ ih =>
      refine List.forall_mem_cons.2 ⟨⟨?_, notRail, ?_⟩, ih⟩
      · rw [id_of_find? found, found]
      · exact List.ne_nil_of_mem (List.mem_of_head? fed)

/-- A walk passes no element twice, and none that was visited before. -/
theorem nodup (h : m.Walk visited id es x ending) :
    (es.map Element.id).Nodup ∧ ∀ y ∈ es.map Element.id, y ∉ visited := by
  induction h with
  | stop _ => exact ⟨List.nodup_nil, List.forall_mem_nil _⟩
  | pass new found _ _ _ ih =>
      -- the rest avoids `id :: visited`, so it holds neither `id` nor what was visited
      obtain ⟨hnodup, hnew⟩ := ih
      rw [List.map_cons, id_of_find? found]
      refine ⟨List.nodup_cons.2 ⟨fun hid => hnew _ hid List.mem_cons_self, hnodup⟩, ?_⟩
      refine List.forall_mem_cons.2 ⟨new, ?_⟩
      intro y hy hvisited
      exact hnew y hy (List.mem_cons_of_mem _ hvisited)

/-- When a walk stops, all that it passed counts as visited. -/
theorem stops (h : m.Walk visited id es x ending) :
    m.Stops ((es.map Element.id).reverse ++ visited) x ending := by
  induction h with
  | stop stops => exact stops
  | pass _ found _ _ _ ih =>
      rw [List.map_cons, List.reverse_cons, id_of_find? found, List.append_assoc,
        List.singleton_append]
      exact ih

/-- No more elements are passed than the map has. -/
theorem length_le (h : m.Walk visited id es x ending) : es.length ≤ m.size := by
  -- distinct identifiers, all of the map: there are no more than the map has
  have hsub : es.map Element.id ⊆ m.elements.map Element.id := by
    intro y hy
    obtain ⟨e, he, rfl⟩ := List.mem_map.1 hy
    exact List.mem_map_of_mem (mem_of_find? (h.passes e he).1)
  simpa [size] using (h.nodup.1.subperm hsub).length_le

end Walk

end ElementMap

/-! ## Rounds -/

/-- What a trace keeps between two rounds. -/
structure TraceState where
  visited : List String
  /-- The contacts met, the last one at the end. -/
  recorded : Branch
  current : String

namespace TraceState

open ElementMap

variable {m : ElementMap} {visited : List String} {id next x : String} {e : Element}
  {es : List Element} {ending : TraceEnd}

/-- Before the first round. -/
def start (seed : String) : TraceState := ⟨[], [], seed⟩

/-- One round: the state for the next one, or the trace that is finished. -/
def round (m : ElementMap) (s : TraceState) : TraceState ⊕ Trace :=
  if s.current ∈ s.visited then .inr ⟨s.recorded.reverse, .cycle⟩
  else
    match m.find? s.current with
    | none => .inr ⟨s.recorded.reverse, .dangling⟩
    | some e =>
      if e.kind = .leftRail then .inr ⟨s.recorded.reverse, .rail⟩
      else
        match e.primary? with
        | none => .inr ⟨(s.recorded ++ e.contacts).reverse, .unfed⟩
        | some next => .inl ⟨s.current :: s.visited, s.recorded ++ e.contacts, next⟩

/-- So many rounds, or fewer if the trace is finished before. -/
def rounds (m : ElementMap) : Nat → TraceState → TraceState ⊕ Trace
  | 0, s => .inl s
  | k + 1, s =>
    match s.round m with
    | .inl s' => rounds m k s'
    | .inr trace => .inr trace

theorem round_of_fed {recorded : Branch} (new : id ∉ visited) (found : m.find? id = some e)
    (notRail : e.kind ≠ .leftRail) (fed : e.primary? = some next) :
    round m ⟨visited, recorded, id⟩ = .inl ⟨id :: visited, recorded ++ e.contacts, next⟩ := by
  simp [round, new, found, notRail, fed]

/-- The round that finishes a trace. -/
theorem round_of_stops {recorded : Branch} (h : m.Stops visited id ending) :
    round m ⟨visited, recorded, id⟩ =
      .inr ⟨(recorded ++ (m.lastElement id ending).flatMap Element.contacts).reverse, ending⟩ := by
  cases ending with
  | cycle =>
      have hseen : id ∈ visited := h
      simp [round, lastElement, hseen]
  | dangling =>
      obtain ⟨new, missing⟩ := h
      simp [round, lastElement, new, missing]
  | rail =>
      obtain ⟨new, e, found, isRail⟩ := h
      simp [round, lastElement, new, found, isRail]
  | unfed =>
      obtain ⟨new, e, found, notRail, unfed⟩ := h
      simp [round, lastElement, new, found, notRail, unfed]

/-- A trace that is still running after some rounds was running after fewer. -/
theorem rounds_inl_of_le {j k : Nat} (hjk : j ≤ k) {s t : TraceState} (h : rounds m k s = .inl t) :
    ∃ u, rounds m j s = .inl u := by
  induction j generalizing k s with
  | zero => exact ⟨s, rfl⟩
  | succ j ih =>
      cases k with
      | zero => omega
      | succ k =>
          rw [rounds] at h ⊢
          cases hround : s.round m with
          | inl s' =>
              rw [hround] at h
              exact ih (Nat.le_of_succ_le_succ hjk) h
          | inr trace =>
              rw [hround] at h
              cases h

/-- While a trace is running, one more round is a round from where it is. -/
theorem rounds_succ_of_inl {k : Nat} {s t : TraceState} (h : rounds m k s = .inl t) :
    rounds m (k + 1) s = t.round m := by
  induction k generalizing s with
  | zero =>
      cases h
      rw [rounds]
      cases t.round m with
      | inl s' => rfl
      | inr trace => rfl
  | succ k ih =>
      rw [rounds] at h ⊢
      cases hround : s.round m with
      | inl s' =>
          rw [hround] at h
          exact ih h
      | inr trace =>
          rw [hround] at h
          cases h

end TraceState

namespace ElementMap

variable {m : ElementMap} {visited : List String} {seed id x : String} {es : List Element}
  {ending : TraceEnd}

/-- Each element passed takes one round. -/
theorem Walk.rounds_eq (h : m.Walk visited id es x ending) (recorded : Branch) :
    TraceState.rounds m es.length ⟨visited, recorded, id⟩ =
      .inl ⟨(es.map Element.id).reverse ++ visited,
        recorded ++ es.flatMap Element.contacts, x⟩ := by
  induction h generalizing recorded with
  | stop _ => simp [TraceState.rounds]
  | pass new found notRail fed _ ih =>
      -- the rest of the walk goes on from the state that this round leaves
      rw [List.length_cons, TraceState.rounds, TraceState.round_of_fed new found notRail fed]
      simp only
      rw [ih, List.map_cons, List.reverse_cons, id_of_find? found, List.flatMap_cons,
        List.append_assoc, List.append_assoc, List.singleton_append]

/-- One more round finishes the trace. -/
theorem Walk.rounds_succ_eq (h : m.Walk visited id es x ending) (recorded : Branch) :
    TraceState.rounds m (es.length + 1) ⟨visited, recorded, id⟩ =
      .inr ⟨(recorded ++ (es ++ m.lastElement x ending).flatMap Element.contacts).reverse,
        ending⟩ := by
  rw [TraceState.rounds_succ_of_inl (h.rounds_eq recorded), TraceState.round_of_stops h.stops,
    List.flatMap_append, List.append_assoc]

/-! ## Where the chain ends -/

/-- Only one reason to stop can hold, and the trace gives it. -/
theorem Stops.ending_eq (h : m.Stops visited id ending) :
    (m.traceFrom visited id).ending = ending := by
  cases ending with
  | cycle => rw [traceFrom_of_visited h]
  | dangling => rw [traceFrom_of_missing h.1 h.2]
  | rail =>
      obtain ⟨new, e, found, isRail⟩ := h
      rw [traceFrom_of_rail new found isRail]
  | unfed =>
      obtain ⟨new, e, found, notRail, unfed⟩ := h
      rw [traceFrom_of_unfed new found notRail unfed]

/-- The elements passed are the places of the chain before the last. -/
theorem Walk.mem_ids_iff (h : m.Walk visited id es x ending) {y : String} :
    y ∈ es.map Element.id ↔ ∃ j < es.length, m.chain id j = some y := by
  rw [List.mem_iff_getElem?]
  constructor
  · rintro ⟨j, hj⟩
    have hlt : j < es.length := by
      simpa using (List.getElem?_eq_some_iff.1 hj).1
    exact ⟨j, hlt, (h.chain_eq hlt).trans hj⟩
  · rintro ⟨j, hlt, hj⟩
    exact ⟨j, (h.chain_eq hlt).symm.trans hj⟩

/-- At the last place of a walk, the chain ends for the reason for which the walk stops. -/
theorem Walk.endsAt_iff (h : m.Walk [] seed es x ending) (why : TraceEnd) :
    m.EndsAt seed es.length why ↔ m.Stops (es.map Element.id).reverse x why := by
  have hx : ∀ {y}, m.chain seed es.length = some y ↔ y = x := by
    intro y
    rw [h.chain_length, Option.some_inj]
    exact eq_comm
  have hmem : x ∈ (es.map Element.id).reverse ↔ ∃ j < es.length, m.chain seed j = some x := by
    rw [List.mem_reverse, h.mem_ids_iff]
  -- a repeated element is found, no rail and fed, so that no other reason holds
  have hpassed : x ∈ (es.map Element.id).reverse →
      ∃ e, m.find? x = some e ∧ e.kind ≠ .leftRail ∧ e.inputs ≠ [] := by
    intro hrepeat
    obtain ⟨e, he, rfl⟩ := List.mem_map.1 (List.mem_reverse.1 hrepeat)
    exact ⟨e, h.passes e he⟩
  cases why with
  | cycle =>
      constructor
      · rintro ⟨y, hy, hj⟩
        rw [hx.1 hy] at hj
        exact hmem.2 hj
      · intro hrepeat
        exact ⟨x, hx.2 rfl, hmem.1 hrepeat⟩
  | dangling =>
      constructor
      · rintro ⟨y, hy, missing⟩
        rw [hx.1 hy] at missing
        refine ⟨fun hrepeat => ?_, missing⟩
        obtain ⟨e, found, -⟩ := hpassed hrepeat
        cases missing.symm.trans found
      · rintro ⟨-, missing⟩
        exact ⟨x, hx.2 rfl, missing⟩
  | rail =>
      constructor
      · rintro ⟨y, e, hy, found, isRail⟩
        rw [hx.1 hy] at found
        refine ⟨fun hrepeat => ?_, e, found, isRail⟩
        obtain ⟨e', found', notRail, -⟩ := hpassed hrepeat
        cases found.symm.trans found'
        exact notRail isRail
      · rintro ⟨-, e, found, isRail⟩
        exact ⟨x, e, hx.2 rfl, found, isRail⟩
  | unfed =>
      constructor
      · rintro ⟨y, e, hy, found, notRail, unfed⟩
        rw [hx.1 hy] at found
        refine ⟨fun hrepeat => ?_, e, found, notRail, by rw [Element.primary?, unfed]; rfl⟩
        obtain ⟨e', found', -, fed⟩ := hpassed hrepeat
        cases found.symm.trans found'
        exact fed unfed
      · rintro ⟨-, e, found, notRail, unfed⟩
        exact ⟨x, e, hx.2 rfl, found, notRail, List.head?_eq_none_iff.1 unfed⟩

/-- The places of the chain before the last are pairwise different. -/
theorem Walk.chain_ne (h : m.Walk visited id es x ending) {j k : Nat} (hjk : j < k)
    (hk : k < es.length) : m.chain id j ≠ m.chain id k := by
  rw [h.chain_eq (Nat.lt_trans hjk hk), h.chain_eq hk]
  exact List.nodup_iff_getElem?_ne_getElem?.1 h.nodup.1 j k hjk (by simpa using hk)

theorem Walk.chain_of_lt (h : m.Walk visited id es x ending) {k : Nat} (hk : k < es.length) :
    ∃ e ∈ es, m.chain id k = some e.id := by
  refine ⟨es[k], List.getElem_mem hk, ?_⟩
  rw [h.chain_eq hk, List.getElem?_map, List.getElem?_eq_getElem hk, Option.map_some]

/-- Before the last place of a walk, the chain does not end. -/
theorem Walk.not_endsAt (h : m.Walk visited seed es x ending) {k : Nat} (hk : k < es.length)
    (why : TraceEnd) : ¬ m.EndsAt seed k why := by
  obtain ⟨e, he, hchain⟩ := h.chain_of_lt hk
  obtain ⟨found, notRail, fed⟩ := h.passes e he
  cases why with
  | cycle =>
      -- a repeat would be one among the elements passed
      rintro ⟨y, hy, j, hjk, hj⟩
      exact h.chain_ne hjk hk (hj.trans hy.symm)
  | dangling =>
      rintro ⟨y, hy, missing⟩
      cases hchain.symm.trans hy
      cases found.symm.trans missing
  | rail =>
      rintro ⟨y, e', hy, found', isRail⟩
      cases hchain.symm.trans hy
      cases found.symm.trans found'
      exact notRail isRail
  | unfed =>
      rintro ⟨y, e', hy, found', -, unfed⟩
      cases hchain.symm.trans hy
      cases found.symm.trans found'
      exact fed unfed

/-! ## What a trace sees of the chain -/

theorem Walk.upstream (h : m.Walk visited id es x ending) :
    (∀ y ∈ es.map Element.id, m.Upstream id y) ∧ m.Upstream id x := by
  induction h with
  | stop _ => exact ⟨List.forall_mem_nil _, .here _⟩
  | pass _ found notRail fed _ ih =>
      rw [List.map_cons, id_of_find? found]
      refine ⟨List.forall_mem_cons.2 ⟨.here _, ?_⟩, .behind found notRail fed ih.2⟩
      intro y hy
      exact .behind found notRail fed (ih.1 y hy)

/-- The first input of an element passed is the next place of the chain. -/
theorem Walk.mem_of_primary (h : m.Walk visited id es x ending) {e : Element} {y : String}
    (hmem : e ∈ m.elements) (he : e.id ∈ es.map Element.id) (fed : e.primary? = some y) :
    y ∈ es.map Element.id ++ [x] := by
  obtain ⟨k, hk, hchain⟩ := h.mem_ids_iff.1 he
  have hnext : m.chain id (k + 1) = some y := by
    rw [chain, hchain, Option.bind_some, next?, find?_of_mem hmem, Option.bind_some, fed]
  by_cases hlt : k + 1 < es.length
  · exact List.mem_append_left _ (h.mem_ids_iff.2 ⟨k + 1, hlt, hnext⟩)
  · have hlast : k + 1 = es.length := by omega
    rw [hlast, h.chain_length] at hnext
    cases hnext
    exact List.mem_append_right _ (List.mem_singleton.2 rfl)

/-- What can be seen from a seed is the chain up to the place where the trace stops. -/
theorem Walk.upstream_iff (h : m.Walk [] seed es x ending) {y : String} :
    m.Upstream seed y ↔ ∃ k ≤ es.length, m.chain seed k = some y := by
  constructor
  · intro hy
    -- nothing leads out of what the walk was at
    have hmem : y ∈ es.map Element.id ++ [x] := by
      refine hy.mem_of_closed ?_ ?_
      · cases h with
        | stop _ => exact List.mem_singleton.2 rfl
        | pass _ found _ _ _ =>
            rw [List.map_cons, id_of_find? found]
            exact List.mem_cons_self
      · intro e hmem hid notRail next fed
        rcases List.mem_append.1 hid with hpassed | hlast
        · exact h.mem_of_primary hmem hpassed fed
        · have hx : e.id = x := List.mem_singleton.1 hlast
          have found : m.find? x = some e := by rw [← hx, find?_of_mem hmem]
          have hstops := h.stops
          cases ending with
          | cycle =>
              -- the walk stopped at an element that it had passed
              rw [List.append_nil] at hstops
              refine h.mem_of_primary hmem ?_ fed
              rw [hx]
              exact List.mem_reverse.1 hstops
          | dangling => cases found.symm.trans hstops.2
          | rail =>
              obtain ⟨-, e', found', isRail⟩ := hstops
              cases found.symm.trans found'
              exact absurd isRail notRail
          | unfed =>
              obtain ⟨-, e', found', -, unfed⟩ := hstops
              cases found.symm.trans found'
              cases unfed.symm.trans fed
    rcases List.mem_append.1 hmem with hpassed | hlast
    · obtain ⟨k, hk, hchain⟩ := h.mem_ids_iff.1 hpassed
      exact ⟨k, Nat.le_of_lt hk, hchain⟩
    · rw [List.mem_singleton.1 hlast]
      exact ⟨es.length, Nat.le_refl _, h.chain_length⟩
  · rintro ⟨k, hk, hchain⟩
    rcases Nat.lt_or_eq_of_le hk with hlt | heq
    · exact h.upstream.1 y (h.mem_ids_iff.2 ⟨k, hlt, hchain⟩)
    · rw [heq, h.chain_length] at hchain
      cases hchain
      exact h.upstream.2

/-! ## Everything a walk meets -/

/-- What a walk meets, the element it stops at included if it counts, is in the map and
distinct. -/
theorem Walk.met (h : m.Walk visited id es x ending) :
    (∀ e ∈ es ++ m.lastElement x ending, e ∈ m.elements) ∧
      (es ++ m.lastElement x ending).Nodup := by
  have hes : es.Nodup := List.Nodup.of_map _ h.nodup.1
  have hmem : ∀ e ∈ es, e ∈ m.elements := fun e he => mem_of_find? (h.passes e he).1
  by_cases hunfed : ending = .unfed
  · subst hunfed
    obtain ⟨new, e, found, -⟩ := h.stops
    have hlast : m.lastElement x .unfed = [e] := by simp [lastElement, found]
    rw [hlast]
    refine ⟨?_, ?_⟩
    · exact List.forall_mem_append.2 ⟨hmem, List.forall_mem_singleton.2 (mem_of_find? found)⟩
    -- the last element is none of those passed, or the trace would have come back to it
    · rw [← List.concat_eq_append, List.nodup_concat]
      refine ⟨?_, hes⟩
      intro he
      rw [← id_of_find? found] at new
      exact new (List.mem_append_left _ (List.mem_reverse.2 (List.mem_map_of_mem he)))
  · rw [lastElement, if_neg hunfed, List.append_nil]
    exact ⟨hmem, hes⟩

/-- What a walk meets is the chain up to its last place, which counts only if nothing feeds
it. -/
theorem Walk.chainElements_met (h : m.Walk visited id es x ending) :
    m.chainElements id (if ending = .unfed then es.length + 1 else es.length) =
      es ++ m.lastElement x ending := by
  by_cases hunfed : ending = .unfed
  · subst hunfed
    obtain ⟨-, e, found, -⟩ := h.stops
    rw [if_pos rfl, chainElements_succ h.chain_length found, h.chainElements_eq]
    simp [lastElement, found]
  · rw [if_neg hunfed, h.chainElements_eq, lastElement, if_neg hunfed, List.append_nil]

/-- The trace from a seed is the chain from it, up to the place with the given number. -/
structure TracesChain (m : ElementMap) (seed : String) (n : Nat) : Prop where
  /-- The place is not past the number of elements. -/
  bound : n ≤ m.size
  /-- The chain ends there for the reason that the trace gives, -/
  ends : m.EndsAt seed n (m.trace seed).ending
  /-- and for no other, -/
  only : ∀ why, m.EndsAt seed n why → why = (m.trace seed).ending
  /-- and at no place before. -/
  least : ∀ k < n, ∀ why, ¬ m.EndsAt seed k why
  /-- The places before are distinct identifiers of the map. -/
  keys : ∀ k < n, ∃ y ∈ m.ids, m.chain seed k = some y
  distinct : ∀ j k, j < k → k < n → m.chain seed j ≠ m.chain seed k
  /-- Up to there the chain is what can be seen from the seed. -/
  seen : ∀ y, m.Upstream seed y ↔ ∃ k ≤ n, m.chain seed k = some y
  /-- A trace made in rounds is not finished after as many of them, but is after one more. -/
  running : ∀ k ≤ n, ∃ s, TraceState.rounds m k (.start seed) = .inl s
  finished : TraceState.rounds m (n + 1) (.start seed) = .inr (m.trace seed)
  /-- The branch holds the contacts and coils of the chain, the last one first.  The last
  place counts only if nothing feeds it. -/
  branch : (m.trace seed).branch =
    (((m.chainElements seed (if (m.trace seed).ending = .unfed then n + 1 else n)).filter
      fun e => e.kind = .contact ∨ e.kind = .coil).map Element.contact).reverse
  /-- No element is on the branch twice. -/
  once : ∃ es : List Element, es.Nodup ∧
    (∀ e ∈ es, e ∈ m.elements ∧ (e.kind = .contact ∨ e.kind = .coil)) ∧
    (m.trace seed).branch = es.map Element.contact
  /-- The branch is no longer than there are contacts and coils. -/
  short : (m.trace seed).branch.length ≤
    m.elements.countP fun e => e.kind = .contact ∨ e.kind = .coil

theorem Walk.tracesChain (h : m.Walk [] seed es x (m.trace seed).ending)
    (hbranch : (m.trace seed).branch =
      ((es ++ m.lastElement x (m.trace seed).ending).flatMap Element.contacts).reverse) :
    m.TracesChain seed es.length := by
  obtain ⟨hmem, hnodup⟩ := h.met
  have hstops : m.Stops (es.map Element.id).reverse x (m.trace seed).ending := by
    simpa using h.stops
  have hdrawn : (m.trace seed).branch =
      ((es ++ m.lastElement x (m.trace seed).ending).filter
        fun e => e.kind = .contact ∨ e.kind = .coil).reverse.map Element.contact := by
    rw [hbranch, Element.flatMap_contacts, List.map_reverse]
  exact {
    bound := h.length_le
    ends := (h.endsAt_iff _).2 hstops
    only := by
      -- both reasons are the one that a trace from there on would give
      intro why hwhy
      exact ((h.endsAt_iff why).1 hwhy).ending_eq.symm.trans hstops.ending_eq
    least := fun k hk why => h.not_endsAt hk why
    keys := by
      intro k hk
      obtain ⟨e, he, hchain⟩ := h.chain_of_lt hk
      exact ⟨e.id, List.mem_map_of_mem (mem_of_find? (h.passes e he).1), hchain⟩
    distinct := fun j k hjk hk => h.chain_ne hjk hk
    seen := fun y => h.upstream_iff
    running := fun k hk => TraceState.rounds_inl_of_le hk (h.rounds_eq [])
    finished := by rw [TraceState.start, h.rounds_succ_eq [], List.nil_append, ← hbranch]
    branch := by rw [hdrawn, h.chainElements_met, List.map_reverse]
    once := by
      refine ⟨_, List.nodup_reverse.2 (hnodup.filter _), ?_, hdrawn⟩
      intro e he
      obtain ⟨hmet, hkind⟩ := List.mem_filter.1 (List.mem_reverse.1 he)
      exact ⟨hmem e hmet, of_decide_eq_true hkind⟩
    short := by
      rw [hdrawn, List.length_map, List.length_reverse, ← List.countP_eq_length_filter]
      exact (hnodup.subperm hmem).countP_le _ }

/-- **Reconstruction is exact.**  A trace ends on every seed, at the first place where the
chain of first inputs repeats itself or cannot go on, and its branch is what the chain
met up to there.  The rungs are one for each coil, in the order of the map, with the
traces of the coil's inputs that met a contact as branches. -/
theorem trace_exact (m : ElementMap) :
    (∀ seed, ∃ n, m.TracesChain seed n) ∧
    List.Forall₂ (fun coil rung => rung.operand = coil.operand ∧ rung.negated = coil.negated ∧
        rung.branches = (coil.inputs.map fun i => (m.trace i).branch).filter (· ≠ []))
      (m.elements.filter (·.kind = .coil)) m.rungs := by
  constructor
  · intro seed
    obtain ⟨es, x, hwalk, hbranch⟩ := m.exists_walk [] seed
    exact ⟨es.length, hwalk.tracesChain hbranch⟩
  · have hcoils : m.elements.filter (·.kind == .coil) = m.elements.filter (·.kind = .coil) := rfl
    rw [rungs, hcoils, List.forall₂_map_right_iff, List.forall₂_same]
    intro coil _
    refine ⟨rfl, rfl, ?_⟩
    apply List.filter_congr
    intro b _
    cases b <;> rfl

end ElementMap
end LadderLogic
