import Roaming.Proofs.Spelling

/-!
# Values are passed over

Whoever passes over the value of a member looks at less than its reader: what is the text of a value
is passed over to its end.
-/

set_option autoImplicit false
set_option relaxedAutoImplicit false

namespace Roaming.Json

open Roaming.Text

/-- Behind the comma, the next items stand like the first ones. -/
private theorem listed_behind_comma {own : Bytes} {owns : List Bytes} {inner : Bytes}
    (h : Listed false (own :: owns) inner) : ∃ front more, Blank front ∧
      inner = front ++ 44 :: more ∧ Listed true (own :: owns) more := by
  obtain ⟨gap, more, ⟨front, back, hfront, hback, rfl⟩, hmore, rfl⟩ := h
  exact ⟨front, back ++ (own ++ more), hfront, by simp, back, more, hback, hmore, rfl⟩

private theorem laid_behind_comma {m : Member} {laid : List Member} {inner : Bytes}
    (h : Laid false (m :: laid) inner) : ∃ front more, Blank front ∧
      inner = front ++ 44 :: more ∧ Laid true (m :: laid) more := by
  obtain ⟨gap, label, colon, more, ⟨front, back, hfront, hback, rfl⟩, hlabel, hcolon, hmore, rfl⟩ :=
    h
  exact ⟨front, back ++ 34 :: (label ++ (colon ++ (m.text ++ more))),
    hfront, by simp, back, label, colon, more, hback, hlabel, hcolon, hmore, rfl⟩

theorem skipValueWith_blanks {gap : Bytes} (h : Blank gap) (fuel : Nat) (text : Bytes) :
    skipValueWith (fuel + 1) (gap ++ text) = skipValueWith (fuel + 1) text := by
  rw [skipValueWith, skipValueWith, skipBlanks_append h]

private theorem skipValueWith_number {n : Number} {text left : Bytes}
    (h : readNumber text = .ok (n, left)) (fuel : Nat) :
    skipValueWith (fuel + 1) text = .ok left := by
  have hskip := (startsValue_of_readNumber h).skipBlanks
  obtain ⟨own, -, -, hleft⟩ := readNumber_cut h
  obtain ⟨b, more, rfl, hb⟩ := startsNumber_of_readNumber h
  have hnull : b ≠ 110 := by rintro rfl; exact absurd hb (by decide)
  have htrue : b ≠ 116 := by rintro rfl; exact absurd hb (by decide)
  have hfalse : b ≠ 102 := by rintro rfl; exact absurd hb (by decide)
  simp only [skipValueWith, hskip, if_neg hnull, if_neg htrue, if_neg hfalse, if_pos hb, hleft]

theorem skipValueWith_list_end {inner : Bytes} (h : Blank inner) (fuel : Nat) (more : Bytes) :
    skipValueWith (fuel + 1) (91 :: (inner ++ 93 :: more)) = .ok more := by
  simp [skipValueWith, skipBlanks_append h, skipBlanks_cons, isBlank, startsNumber, isDigit]

theorem skipValueWith_list {gap text : Bytes} (h : Blank gap) (ht : StartsValue text)
    (fuel : Nat) : skipValueWith (fuel + 1) (91 :: (gap ++ text)) = skipItems fuel text := by
  obtain ⟨b, rest, rfl, hb, hend⟩ := ht
  have hskip := skipBlanks_cons hb rest
  simp [skipValueWith, skipBlanks_append h, skipBlanks_cons, hskip, hend, isBlank, startsNumber,
    isDigit]

theorem skipValueWith_object_end {inner : Bytes} (h : Blank inner) (fuel : Nat)
    (more : Bytes) : skipValueWith (fuel + 1) (123 :: (inner ++ 125 :: more)) = .ok more := by
  simp [skipValueWith, skipBlanks_append h, skipBlanks_cons, isBlank, startsNumber, isDigit]

theorem skipValueWith_object {gap : Bytes} (h : Blank gap) (fuel : Nat) (text : Bytes) :
    skipValueWith (fuel + 1) (123 :: (gap ++ 34 :: text)) = skipMembers fuel (34 :: text) := by
  simp [skipValueWith, skipBlanks_append h, skipBlanks_cons, isBlank, startsNumber, isDigit]

private theorem skipName_laid {gap label colon : Bytes} {name : String} (hgap : Blank gap)
    (hlabel : readText label = .ok (name, [])) (hcolon : Colon colon) (rest : Bytes) :
    ∃ back, Blank back ∧
      skipName (gap ++ 34 :: (label ++ (colon ++ rest))) = .ok (back ++ rest) := by
  obtain ⟨back, hback, hread⟩ := readColon_append hcolon rest
  refine ⟨back, hback, ?_⟩
  unfold skipName
  rw [skipBlanks_append hgap, skipBlanks_cons (by decide)]
  change (skipText (label ++ (colon ++ rest))).bind readColon = _
  rw [skipText_append hlabel]
  exact hread

mutual

theorem skipValueWith_spells (v : Value) (fuel : Nat) {own gap more : Bytes} (h : Spells v own)
    (hgap : Blank gap) (hr : EndsNumber more) (hf : 2 * own.length ≤ fuel) :
    skipValueWith fuel (gap ++ (own ++ more)) = .ok more := by
  have hpos : 0 < own.length := by
    obtain ⟨b, tail, rfl, -⟩ := startsValue_of_spells h
    exact Nat.succ_pos _
  obtain ⟨fuel, rfl⟩ : ∃ f, fuel = f + 1 := ⟨fuel - 1, by omega⟩
  rw [skipValueWith_blanks hgap]
  cases v with
  | null =>
    rw [Spells] at h
    subst h
    rfl
  | bool b =>
    rw [Spells] at h
    subst h
    cases b <;> rfl
  | whole n =>
    rw [Spells] at h
    exact skipValueWith_number (readNumber_append h hr) fuel
  | real x =>
    rw [Spells] at h
    exact skipValueWith_number (readNumber_append h hr) fuel
  | text s =>
    rw [Spells] at h
    obtain ⟨label, hlabel, rfl⟩ := h
    exact skipText_append hlabel more
  | list items =>
    rw [Spells] at h
    obtain ⟨owns, inner, hspells, hlisted, rfl⟩ := h
    simp only [List.length_cons, List.length_append, List.length_nil] at hf
    simp only [List.cons_append, List.append_assoc, List.nil_append]
    cases items with
    | nil =>
      rw [SpellsItems] at hspells
      subst hspells
      exact skipValueWith_list_end hlisted fuel more
    | cons w items =>
      have hitems := hspells
      rw [SpellsItems] at hitems
      obtain ⟨first, owns, rfl, hw, -⟩ := hitems
      obtain ⟨front, tail, hfront, htail, rfl⟩ := hlisted
      simp only [List.length_append] at hf
      have hstart := startsValue_of_spells hw
      rw [List.append_assoc, List.append_assoc,
        skipValueWith_list hfront (hstart.append _) fuel, ← List.append_assoc]
      exact skipItems_listed (w :: items) fuel more hspells (List.cons_ne_nil _ _)
        ⟨[], tail, blank_nil, htail, rfl⟩ (by simp only [List.length_append]; omega)
  | object members =>
    rw [Spells] at h
    obtain ⟨laid, inner, hspells, hlaid, rfl⟩ := h
    simp only [List.length_cons, List.length_append, List.length_nil] at hf
    simp only [List.cons_append, List.append_assoc, List.nil_append]
    cases members with
    | nil =>
      rw [SpellsMembers] at hspells
      subst hspells
      exact skipValueWith_object_end hlaid fuel more
    | cons p members =>
      obtain ⟨name, w⟩ := p
      have hmembers := hspells
      rw [SpellsMembers] at hmembers
      obtain ⟨m, laid, rfl, -, -, -⟩ := hmembers
      obtain ⟨front, label, colon, tail, hfront, hlabel, hcolon, htail, rfl⟩ := hlaid
      simp only [List.length_append, List.length_cons] at hf
      rw [List.append_assoc, List.cons_append, skipValueWith_object hfront, ← List.cons_append]
      exact skipMembers_laid ((name, w) :: members) fuel more hspells (List.cons_ne_nil _ _)
        ⟨[], label, colon, tail, blank_nil, hlabel, hcolon, htail, rfl⟩
        (by simp only [List.length_append, List.length_cons]; omega)

theorem skipItems_listed (items : List Value) (fuel : Nat) (more : Bytes) {owns : List Bytes}
    {inner : Bytes} (h : SpellsItems items owns) (hne : items ≠ []) (hl : Listed true owns inner)
    (hf : 2 * inner.length < fuel) : skipItems fuel (inner ++ 93 :: more) = .ok more := by
  obtain ⟨fuel, rfl⟩ : ∃ f, fuel = f + 1 := ⟨fuel - 1, by omega⟩
  cases items with
  | nil => exact absurd rfl hne
  | cons v items =>
    rw [SpellsItems] at h
    obtain ⟨own, owns, rfl, hv, hitems⟩ := h
    obtain ⟨gap, tail, hgap, htail, rfl⟩ := hl
    simp only [List.length_append] at hf
    have hskip := skipValueWith_spells v fuel hv hgap (endsNumber_listed htail more)
      (by omega)
    simp only [List.append_assoc, skipItems, hskip]
    cases items with
    | nil =>
      rw [SpellsItems] at hitems
      subst hitems
      have hblank : Blank tail := htail
      simp [skipBlanks_append hblank, skipBlanks_cons, isBlank]
    | cons w items =>
      have hspells := hitems
      rw [SpellsItems] at hitems
      obtain ⟨own', owns, rfl, -, -⟩ := hitems
      obtain ⟨front, inner, hfront, rfl, hlisted⟩ := listed_behind_comma htail
      simp only [List.length_append, List.length_cons] at hf
      have hrest := skipItems_listed (w :: items) fuel more hspells
        (List.cons_ne_nil _ _) hlisted (by omega)
      rw [List.append_assoc, skipBlanks_append hfront, List.cons_append,
        skipBlanks_cons (by decide)]
      exact hrest

theorem skipMembers_laid (members : List (String × Value)) (fuel : Nat) (more : Bytes)
    {laid : List Member} {inner : Bytes} (h : SpellsMembers members laid) (hne : members ≠ [])
    (hl : Laid true laid inner) (hf : 2 * inner.length < fuel) :
    skipMembers fuel (inner ++ 125 :: more) = .ok more := by
  obtain ⟨fuel, rfl⟩ : ∃ f, fuel = f + 1 := ⟨fuel - 1, by omega⟩
  cases members with
  | nil => exact absurd rfl hne
  | cons p members =>
    obtain ⟨name, v⟩ := p
    rw [SpellsMembers] at h
    obtain ⟨m, laid, rfl, -, hv, hmembers⟩ := h
    obtain ⟨gap, label, colon, tail, hgap, hlabel, hcolon, htail, rfl⟩ := hl
    simp only [List.length_append, List.length_cons] at hf
    obtain ⟨back, hback, hname⟩ :=
      skipName_laid hgap hlabel hcolon (m.text ++ (tail ++ 125 :: more))
    have hskip := skipValueWith_spells v fuel hv hback (endsNumber_laid htail more)
      (by omega)
    simp only [List.append_assoc, List.cons_append, skipMembers, hname, hskip]
    cases members with
    | nil =>
      rw [SpellsMembers] at hmembers
      subst hmembers
      have hblank : Blank tail := htail
      simp [skipBlanks_append hblank, skipBlanks_cons, isBlank]
    | cons q members =>
      obtain ⟨name', w⟩ := q
      have hspells := hmembers
      rw [SpellsMembers] at hmembers
      obtain ⟨m', laid, rfl, -, -, -⟩ := hmembers
      obtain ⟨front, inner, hfront, rfl, hlaid⟩ := laid_behind_comma htail
      simp only [List.length_append, List.length_cons] at hf
      have hrest := skipMembers_laid ((name', w) :: members) fuel more hspells
        (List.cons_ne_nil _ _) hlaid (by omega)
      rw [List.append_assoc, skipBlanks_append hfront, List.cons_append,
        skipBlanks_cons (by decide)]
      exact hrest

end

/-- A value is passed over from its text, however deep it is. -/
theorem skipValue_spells {v : Value} {own gap more : Bytes} (h : Spells v own) (hgap : Blank gap)
    (hr : EndsNumber more) : skipValue (gap ++ (own ++ more)) = .ok more := by
  refine skipValueWith_spells v _ h hgap hr ?_
  simp only [rounds, List.length_append]
  omega

end Roaming.Json
