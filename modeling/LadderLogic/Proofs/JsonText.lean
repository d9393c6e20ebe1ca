/-
The JSON text of a diagram determines the diagram.

A text can be taken apart again from the left.  The first character of a value tells
its kind, a numeral ends at the first character that no numeral has, a string at the
first quotation mark that is not escaped, and an array or a record where a line begins
without a comma before it.  So what a value is written as, whatever follows it, is written
by no other value (`Json.Value.write_append_inj`), as long as every number in it is finite:
all others are written as `null`.
-/

import Mathlib
import LadderLogic.Json.Export
import LadderLogic.Proofs.NumberText

namespace LadderLogic

/-! ## The numbers of a diagram -/

section Coordinates

variable {α : Type}

def Point.coordinates (p : Point α) : List α := [p.x, p.y]

def Segment.coordinates (s : Segment α) : List α := s.start.coordinates ++ s.stop.coordinates

def BranchLine.coordinates (l : BranchLine α) : List α :=
  l.y :: (l.glyphs.flatMap (·.position.coordinates) ++ l.wires.flatMap Segment.coordinates)

def RungLayout.coordinates (r : RungLayout α) : List α :=
  [r.span.top, r.span.height] ++ r.coil.position.coordinates ++
    (r.lines.flatMap BranchLine.coordinates ++ r.connectors.flatMap Segment.coordinates)

/-- Every number of a diagram: the page, the rails, the spans, the symbols and the segments. -/
def Diagram.coordinates (d : Diagram α) : List α :=
  [d.width, d.height] ++ [d.left, d.right] ++ d.rungs.flatMap RungLayout.coordinates

end Coordinates

namespace Json

/-! ## Strings -/

/-- The value of a hexadecimal digit. -/
def hexValue (c : Char) : ℕ := if c.isDigit then c.toNat - 48 else c.toNat - 87

/-- Reads one character of a string; the mark that ends the string is none. -/
def unescape : List Char → Option (Char × List Char)
  | [] => none
  | '"' :: _ => none
  | '\\' :: '"' :: rest => some ('"', rest)
  | '\\' :: '\\' :: rest => some ('\\', rest)
  | '\\' :: 'n' :: rest => some ('\n', rest)
  | '\\' :: 'r' :: rest => some ('\r', rest)
  | '\\' :: 't' :: rest => some ('\t', rest)
  | '\\' :: 'b' :: rest => some (Char.ofNat 0x08, rest)
  | '\\' :: 'f' :: rest => some (Char.ofNat 0x0C, rest)
  | '\\' :: 'u' :: '0' :: '0' :: high :: low :: rest =>
    some (Char.ofNat (16 * hexValue high + hexValue low), rest)
  | c :: rest => some (c, rest)

theorem hexValue_hexDigit : ∀ n < 16, hexValue (hexDigit n) = n := by decide

theorem unescape_escapeChar (c : Char) (rest : List Char) :
    unescape (escapeChar c ++ rest) = some (c, rest) := by
  have hcode : ∀ n, c.toNat = n → Char.ofNat n = c := by
    rintro n rfl
    exact Char.ofNat_toNat c
  unfold escapeChar
  split_ifs with hquote hslash hline hreturn htab hback hfeed hcontrol
  · rw [hquote]; rfl
  · rw [hslash]; rfl
  · rw [hline]; rfl
  · rw [hreturn]; rfl
  · rw [htab]; rfl
  · rw [← hcode _ hback]; rfl
  · rw [← hcode _ hfeed]; rfl
  · -- a control character without a name of its own
    have hvalue : 16 * hexValue (hexDigit (c.toNat / 16)) + hexValue (hexDigit (c.toNat % 16)) =
        c.toNat := by
      rw [hexValue_hexDigit _ (by omega), hexValue_hexDigit _ (by omega)]
      omega
    simp only [List.cons_append, List.nil_append, unescape, hvalue, hcode _ rfl]
  · simp only [List.cons_append, List.nil_append]
    unfold unescape
    split <;> simp_all

theorem escapeChar_append_inj {c d : Char} {rest rest' : List Char}
    (h : escapeChar c ++ rest = escapeChar d ++ rest') : c = d ∧ rest = rest' := by
  have hread := congrArg unescape h
  rw [unescape_escapeChar, unescape_escapeChar, Option.some.injEq, Prod.mk.injEq] at hread
  exact hread

theorem escapeChar_append_ne (c : Char) (rest rest' : List Char) :
    escapeChar c ++ rest ≠ '"' :: rest' := by
  intro h
  have hread := congrArg unescape h
  rw [unescape_escapeChar] at hread
  cases hread

theorem escaped_append_inj : ∀ (s t rest rest' : List Char),
    s.flatMap escapeChar ++ '"' :: rest = t.flatMap escapeChar ++ '"' :: rest' →
      s = t ∧ rest = rest'
  -- Both texts are read a character at a time; the closing mark is not read as one.
  | [], [], rest, rest', h => ⟨rfl, (List.cons.inj h).2⟩
  | [], d :: t, rest, rest', h => by
    rw [List.flatMap_cons, List.append_assoc] at h
    exact absurd h.symm (escapeChar_append_ne d _ _)
  | c :: s, [], rest, rest', h => by
    rw [List.flatMap_cons, List.append_assoc] at h
    exact absurd h (escapeChar_append_ne c _ _)
  | c :: s, d :: t, rest, rest', h => by
    rw [List.flatMap_cons, List.flatMap_cons, List.append_assoc, List.append_assoc] at h
    obtain ⟨rfl, htail⟩ := escapeChar_append_inj h
    obtain ⟨rfl, rfl⟩ := escaped_append_inj s t rest rest' htail
    exact ⟨rfl, rfl⟩

theorem quoted_append_inj {s t : String} {rest rest' : List Char}
    (h : quoted s ++ rest = quoted t ++ rest') : s = t ∧ rest = rest' := by
  simp only [quoted, List.cons_append, List.append_assoc, List.nil_append, List.cons.injEq,
    true_and] at h
  obtain ⟨hlist, hrest⟩ := escaped_append_inj s.toList t.toList rest rest' h
  exact ⟨String.toList_inj.1 hlist, hrest⟩

namespace Value

/-! ## Numbers and kinds of values -/

mutual

/-- The numbers of a value, in the order in which they are written. -/
def numbers : Value → List Float32
  | bool _ => []
  | number x => [x]
  | string _ => []
  | array items => itemNumbers items
  | record fields => fieldNumbers fields

def itemNumbers : List Value → List Float32
  | [] => []
  | item :: rest => item.numbers ++ itemNumbers rest

def fieldNumbers : List (String × Value) → List Float32
  | [] => []
  | (_, value) :: rest => value.numbers ++ fieldNumbers rest

end

theorem itemNumbers_map {β : Type} (f : β → Value) (l : List β) :
    itemNumbers (l.map f) = l.flatMap (fun b => (f b).numbers) := by
  induction l with
  | nil => rfl
  | cons b l ih => rw [List.map_cons, itemNumbers, ih, List.flatMap_cons]

inductive Kind where
  | bool
  | number
  | string
  | array
  | record

def kind : Value → Kind
  | bool _ => .bool
  | number _ => .number
  | string _ => .string
  | array _ => .array
  | record _ => .record

/-- The kind of a value that begins with the given character. -/
def Kind.ofHead (c : Char) : Kind :=
  if c = '"' then .string
  else if c = '[' then .array
  else if c = '{' then .record
  else if Numeral.isNumeral c then .number
  else .bool

theorem Kind.ofHead_of_isNumeral {c : Char} (h : Numeral.isNumeral c = true) :
    ofHead c = .number := by
  unfold ofHead
  split_ifs with hstring harray hrecord
  · subst hstring; cases h
  · subst harray; cases h
  · subst hrecord; cases h
  · rfl

theorem numeral_head {x : Float32} (hx : x.isFinite = true) :
    ∃ c tail, Numeral.write .record (.ofFloat32 x) = c :: tail := by
  obtain ⟨negative, m, hm⟩ := FloatValue.ofFloat32_of_isFinite hx
  obtain ⟨c, tail, hc, -⟩ := Numeral.magnitude_head m
  rw [hm, Numeral.write, hc]
  cases negative
  · exact ⟨_, _, rfl⟩
  · exact ⟨_, _, rfl⟩

theorem isNumeral_of_mem {x : Float32} (hx : x.isFinite = true) :
    ∀ c ∈ Numeral.write .record (.ofFloat32 x), Numeral.isNumeral c = true := by
  obtain ⟨negative, m, hm⟩ := FloatValue.ofFloat32_of_isFinite hx
  rw [hm]
  exact fun c => Numeral.isNumeral_of_mem_write fun _ => Numeral.isNumeral_of_mem_tail

theorem write_head (depth : ℕ) {v : Value} (hv : ∀ x ∈ v.numbers, x.isFinite = true) :
    ∃ c tail, v.write depth = c :: tail ∧ Kind.ofHead c = v.kind := by
  cases v with
  | bool b =>
    cases b
    · exact ⟨'f', _, rfl, rfl⟩
    · exact ⟨'t', _, rfl, rfl⟩
  | number x =>
    have hx : x.isFinite = true := hv x (by simp [numbers])
    obtain ⟨c, tail, hc⟩ := numeral_head hx
    refine ⟨c, tail, by rw [write, hc], Kind.ofHead_of_isNumeral (isNumeral_of_mem hx c ?_)⟩
    rw [hc]
    exact List.mem_cons_self
  | string s => exact ⟨'"', _, by rw [write, quoted], rfl⟩
  | array items =>
    cases items with
    | nil => exact ⟨'[', _, by rw [write], rfl⟩
    | cons item rest => exact ⟨'[', _, by rw [write], rfl⟩
  | record fields =>
    cases fields with
    | nil => exact ⟨'{', _, by rw [write], rfl⟩
    | cons field rest => exact ⟨'{', _, by rw [write], rfl⟩

theorem kind_eq {depth : ℕ} {v w : Value} {rest rest' : List Char}
    (hv : ∀ x ∈ v.numbers, x.isFinite = true) (hw : ∀ x ∈ w.numbers, x.isFinite = true)
    (h : v.write depth ++ rest = w.write depth ++ rest') : v.kind = w.kind := by
  obtain ⟨c, tail, hvhead, hvkind⟩ := write_head depth hv
  obtain ⟨c', tail', hwhead, hwkind⟩ := write_head depth hw
  rw [hvhead, hwhead] at h
  obtain ⟨rfl, -⟩ := List.cons.inj h
  rw [← hvkind, ← hwkind]

/-! ## Taking texts apart -/

theorem numeral_append_inj {x y : Float32} (hx : x.isFinite = true) (hy : y.isFinite = true)
    {rest rest' : List Char} (hrest : ∀ c ∈ rest.head?, Numeral.isNumeral c = false)
    (hrest' : ∀ c ∈ rest'.head?, Numeral.isNumeral c = false)
    (h : Numeral.write .record (.ofFloat32 x) ++ rest =
      Numeral.write .record (.ofFloat32 y) ++ rest') : x = y ∧ rest = rest' := by
  -- A numeral is the longest run of its characters, since none of them follows it.
  obtain ⟨htake, hdrop⟩ := Numeral.run_append (isNumeral_of_mem hx) hrest
  obtain ⟨htake', hdrop'⟩ := Numeral.run_append (isNumeral_of_mem hy) hrest'
  have htext : Numeral.write .record (.ofFloat32 x) = Numeral.write .record (.ofFloat32 y) := by
    rw [← htake, h, htake']
  exact ⟨Numeral.write_injective hx hy htext, by rw [← hdrop, h, hdrop']⟩

/-- What follows an item of an array, or a field of a record, goes on with no numeral. -/
theorem writeItems_head (depth : ℕ) (items : List Value) (rest : List Char) :
    ∀ c ∈ (writeItems depth items ++ '\n' :: rest).head?, Numeral.isNumeral c = false := by
  cases items with
  | nil => simp [writeItems]; decide
  | cons item items => simp [writeItems]; decide

theorem writeFields_head (depth : ℕ) (fields : List (String × Value)) (rest : List Char) :
    ∀ c ∈ (writeFields depth fields ++ '\n' :: rest).head?, Numeral.isNumeral c = false := by
  cases fields with
  | nil => simp [writeFields]; decide
  | cons field fields => simp [writeFields]; decide

/-- The items of an array stand in it as they would after others, but for the first comma. -/
theorem write_array_cons (depth : ℕ) (item : Value) (items : List Value) (rest : List Char) :
    ',' :: (write depth (array (item :: items)) ++ rest).tail =
      writeItems (depth + 1) (item :: items) ++
        '\n' :: (List.replicate (2 * depth) ' ' ++ ']' :: rest) := by
  simp [write, writeItems, newline]

theorem write_record_cons (depth : ℕ) (field : String × Value) (fields : List (String × Value))
    (rest : List Char) :
    ',' :: (write depth (record (field :: fields)) ++ rest).tail =
      writeFields (depth + 1) (field :: fields) ++
        '\n' :: (List.replicate (2 * depth) ' ' ++ '}' :: rest) := by
  simp [write, writeFields, newline]

mutual

/-- What a value is written as, is written by no other value, whatever follows. -/
theorem write_append_inj (depth : ℕ) : ∀ (v w : Value) (rest rest' : List Char),
    (∀ x ∈ v.numbers, x.isFinite = true) → (∀ x ∈ w.numbers, x.isFinite = true) →
    (∀ c ∈ rest.head?, Numeral.isNumeral c = false) →
    (∀ c ∈ rest'.head?, Numeral.isNumeral c = false) →
    v.write depth ++ rest = w.write depth ++ rest' → v = w ∧ rest = rest'
  -- The first character tells the kind of a value, so that only two values of one kind have
  -- to be told apart.
  | bool b, w, rest, rest', hv, hw, hrest, hrest', h => by
    cases w with
    | bool b' =>
      cases b <;> cases b' <;> simp_all [write]
    | _ => cases kind_eq hv hw h
  | number x, w, rest, rest', hv, hw, hrest, hrest', h => by
    cases w with
    | number y =>
      have hx : x.isFinite = true := hv x (by simp [numbers])
      have hy : y.isFinite = true := hw y (by simp [numbers])
      rw [write, write] at h
      obtain ⟨rfl, rfl⟩ := numeral_append_inj hx hy hrest hrest' h
      exact ⟨rfl, rfl⟩
    | _ => cases kind_eq hv hw h
  | string s, w, rest, rest', hv, hw, hrest, hrest', h => by
    cases w with
    | string t =>
      rw [write, write] at h
      obtain ⟨rfl, rfl⟩ := quoted_append_inj h
      exact ⟨rfl, rfl⟩
    | _ => cases kind_eq hv hw h
  | array [], w, rest, rest', hv, hw, hrest, hrest', h => by
    cases w with
    | array items =>
      cases items with
      | nil => simpa [write] using h
      | cons item items => simp [write, newline] at h
    | _ => cases kind_eq hv hw h
  | array (item :: items), w, rest, rest', hv, hw, hrest, hrest', h => by
    cases w with
    | array items' =>
      cases items' with
      | nil => simp [write, newline] at h
      | cons item' items' =>
        -- The first item has no comma; with one it stands as the others do.
        have hitems := congrArg (fun text => ',' :: text.tail) h
        simp only [write_array_cons] at hitems
        obtain ⟨heq, hclose⟩ := writeItems_append_inj (depth + 1) (item :: items)
          (item' :: items') _ _ hv hw hitems
        rw [List.append_cancel_left_eq] at hclose
        exact ⟨by rw [heq], (List.cons.inj hclose).2⟩
    | _ => cases kind_eq hv hw h
  | record [], w, rest, rest', hv, hw, hrest, hrest', h => by
    cases w with
    | record fields =>
      cases fields with
      | nil => simpa [write] using h
      | cons field fields => simp [write, newline] at h
    | _ => cases kind_eq hv hw h
  | record ((name, value) :: fields), w, rest, rest', hv, hw, hrest, hrest', h => by
    cases w with
    | record fields' =>
      cases fields' with
      | nil => simp [write, newline] at h
      | cons field' fields' =>
        have hfields := congrArg (fun text => ',' :: text.tail) h
        simp only [write_record_cons] at hfields
        obtain ⟨heq, hclose⟩ := writeFields_append_inj (depth + 1) ((name, value) :: fields)
          (field' :: fields') _ _ hv hw hfields
        rw [List.append_cancel_left_eq] at hclose
        exact ⟨by rw [heq], (List.cons.inj hclose).2⟩
    | _ => cases kind_eq hv hw h

theorem writeItems_append_inj (depth : ℕ) : ∀ (items items' : List Value) (rest rest' : List Char),
    (∀ x ∈ itemNumbers items, x.isFinite = true) →
    (∀ x ∈ itemNumbers items', x.isFinite = true) →
    writeItems depth items ++ '\n' :: rest = writeItems depth items' ++ '\n' :: rest' →
    items = items' ∧ rest = rest'
  | [], [], rest, rest', hv, hw, h => ⟨rfl, (List.cons.inj h).2⟩
  | [], item' :: items', rest, rest', hv, hw, h => by simp [writeItems] at h
  | item :: items, [], rest, rest', hv, hw, h => by simp [writeItems] at h
  | item :: items, item' :: items', rest, rest', hv, hw, h => by
    simp only [itemNumbers, List.mem_append] at hv hw
    simp only [writeItems, List.cons_append, List.append_assoc, List.cons.injEq, true_and,
      List.append_cancel_left_eq] at h
    obtain ⟨rfl, htail⟩ := write_append_inj depth item item' _ _ (fun x hx => hv x (Or.inl hx))
      (fun x hx => hw x (Or.inl hx)) (writeItems_head depth items rest)
      (writeItems_head depth items' rest') h
    obtain ⟨rfl, rfl⟩ := writeItems_append_inj depth items items' rest rest'
      (fun x hx => hv x (Or.inr hx)) (fun x hx => hw x (Or.inr hx)) htail
    exact ⟨rfl, rfl⟩

theorem writeFields_append_inj (depth : ℕ) :
    ∀ (fields fields' : List (String × Value)) (rest rest' : List Char),
    (∀ x ∈ fieldNumbers fields, x.isFinite = true) →
    (∀ x ∈ fieldNumbers fields', x.isFinite = true) →
    writeFields depth fields ++ '\n' :: rest = writeFields depth fields' ++ '\n' :: rest' →
    fields = fields' ∧ rest = rest'
  | [], [], rest, rest', hv, hw, h => ⟨rfl, (List.cons.inj h).2⟩
  | [], (name', value') :: fields', rest, rest', hv, hw, h => by simp [writeFields] at h
  | (name, value) :: fields, [], rest, rest', hv, hw, h => by simp [writeFields] at h
  | (name, value) :: fields, (name', value') :: fields', rest, rest', hv, hw, h => by
    simp only [fieldNumbers, List.mem_append] at hv hw
    simp only [writeFields, List.cons_append, List.append_assoc, List.nil_append, List.cons.injEq,
      true_and, List.append_cancel_left_eq] at h
    obtain ⟨rfl, hvalue⟩ := quoted_append_inj h
    simp only [List.cons.injEq, true_and] at hvalue
    obtain ⟨rfl, htail⟩ := write_append_inj depth value value' _ _ (fun x hx => hv x (Or.inl hx))
      (fun x hx => hw x (Or.inl hx)) (writeFields_head depth fields rest)
      (writeFields_head depth fields' rest') hvalue
    obtain ⟨rfl, rfl⟩ := writeFields_append_inj depth fields fields' rest rest'
      (fun x hx => hv x (Or.inr hx)) (fun x hx => hw x (Or.inr hx)) htail
    exact ⟨rfl, rfl⟩

end

theorem text_injective {v w : Value} (hv : ∀ x ∈ v.numbers, x.isFinite = true)
    (hw : ∀ x ∈ w.numbers, x.isFinite = true) (h : v.text = w.text) : v = w := by
  have hwrite : v.write 0 ++ [] = w.write 0 ++ [] := by
    rw [List.append_nil, List.append_nil]
    exact String.ofList_injective h
  exact (write_append_inj 0 v w [] [] hv hw (by simp) (by simp) hwrite).1

end Value
end Json

/-! ## Diagrams -/

open Json (Value)

theorem Point.toJson_injective : Function.Injective Point.toJson := by
  rintro ⟨x, y⟩ ⟨x', y'⟩ h
  simp_all [Point.toJson]

theorem SegmentKind.name_injective : Function.Injective SegmentKind.name := by
  intro k k'
  cases k <;> cases k' <;> decide

theorem GlyphKind.name_injective : Function.Injective GlyphKind.name := by
  intro k k'
  cases k <;> cases k' <;> decide

theorem Segment.toJson_injective : Function.Injective Segment.toJson := by
  rintro ⟨start, stop, kind⟩ ⟨start', stop', kind'⟩ h
  simpa [Segment.toJson, Point.toJson_injective.eq_iff, SegmentKind.name_injective.eq_iff] using h

theorem Glyph.toJson_injective : Function.Injective Glyph.toJson := by
  rintro ⟨position, operand, negated, kind⟩ ⟨position', operand', negated', kind'⟩ h
  simpa [Glyph.toJson, Point.toJson_injective.eq_iff, GlyphKind.name_injective.eq_iff] using h

theorem BranchLine.toJson_injective : Function.Injective BranchLine.toJson := by
  rintro ⟨y, glyphs, wires, toSplit, toMerge⟩ ⟨y', glyphs', wires', toSplit', toMerge'⟩ h
  simpa [BranchLine.toJson, (List.map_injective_iff.2 Glyph.toJson_injective).eq_iff,
    (List.map_injective_iff.2 Segment.toJson_injective).eq_iff] using h

theorem VerticalSpan.toJson_injective : Function.Injective VerticalSpan.toJson := by
  rintro ⟨top, height⟩ ⟨top', height'⟩ h
  simpa [VerticalSpan.toJson] using h

theorem RungLayout.toJson_injective : Function.Injective RungLayout.toJson := by
  rintro ⟨span, coil, lines, connectors⟩ ⟨span', coil', lines', connectors'⟩ h
  simpa [RungLayout.toJson, VerticalSpan.toJson_injective.eq_iff, Glyph.toJson_injective.eq_iff,
    (List.map_injective_iff.2 BranchLine.toJson_injective).eq_iff,
    (List.map_injective_iff.2 Segment.toJson_injective).eq_iff] using h

namespace Diagram

theorem toJson_injective : Function.Injective Diagram.toJson := by
  rintro ⟨width, height, left, right, rungs⟩ ⟨width', height', left', right', rungs'⟩ h
  simpa [Diagram.toJson, (List.map_injective_iff.2 RungLayout.toJson_injective).eq_iff,
    and_assoc] using h

theorem numbers_segment (s : Segment Float32) : s.toJson.numbers = s.coordinates := rfl

theorem numbers_glyph (g : Glyph Float32) : g.toJson.numbers = g.position.coordinates := rfl

theorem numbers_branchLine (l : BranchLine Float32) : l.toJson.numbers = l.coordinates := by
  simp [BranchLine.toJson, BranchLine.coordinates, Value.numbers, Value.fieldNumbers,
    Value.itemNumbers_map, numbers_glyph, numbers_segment]

theorem numbers_rungLayout (r : RungLayout Float32) : r.toJson.numbers = r.coordinates := by
  simp [RungLayout.toJson, RungLayout.coordinates, VerticalSpan.toJson, Value.numbers,
    Value.fieldNumbers, Value.itemNumbers_map, numbers_glyph, numbers_branchLine, numbers_segment]

/-- The numbers of a record of a diagram are those of the diagram, in their order. -/
theorem numbers_toJson (d : Diagram Float32) : d.toJson.numbers = d.coordinates := by
  simp [Diagram.toJson, Diagram.coordinates, Value.numbers, Value.fieldNumbers, Value.itemNumbers,
    Value.itemNumbers_map, numbers_rungLayout]

/-- Diagrams of finite numbers have the same text only if they are the same diagram, field by
field.  Numbers are the same if their bits are: zero is not negative zero. -/
theorem json_eq_iff {d d' : Diagram Float32} (hd : ∀ x ∈ d.coordinates, x.isFinite = true)
    (hd' : ∀ x ∈ d'.coordinates, x.isFinite = true) : d.json = d'.json ↔ d = d' := by
  constructor
  · intro h
    rw [← numbers_toJson] at hd hd'
    exact toJson_injective (Value.text_injective hd hd' h)
  · rintro rfl
    rfl

/-- A page with one coil between the rails, on a wire of its own. -/
def coilOnly (x : Float32) (operand : String) : Diagram Float32 where
  width := 100
  height := 50
  left := 0
  right := 100
  rungs := [{
    span := ⟨0, 50⟩
    coil := ⟨⟨x, 25⟩, operand, false, .coil⟩
    lines := [⟨25, [], [.wire 0 x 25], false, false⟩]
    connectors := [.wire x 100 25] }]

theorem json_coilOnly_ne :
    (∀ x ∈ (coilOnly 0 "\"").coordinates ++ (coilOnly (-0) "\"").coordinates ++
      (coilOnly 0 "\\\"").coordinates, x.isFinite = true) ∧
    (coilOnly 0 "\"").json ≠ (coilOnly (-0) "\"").json ∧
    (coilOnly 0 "\"").json ≠ (coilOnly 0 "\\\"").json := by
  refine ⟨by decide, fun h => ?_, fun h => ?_⟩
  · exact absurd ((json_eq_iff (by decide) (by decide)).1 h) (by decide)
  · exact absurd ((json_eq_iff (by decide) (by decide)).1 h) (by decide)

end Diagram
end LadderLogic
