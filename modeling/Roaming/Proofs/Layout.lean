import Roaming.Proofs.Literals
import Roaming.Proofs.Values

/-!
# Layout of lists and objects

What may stand between the items of a list and the members of an object: blanks, commas and colons.
The readers find the items and members of a text that is laid out in this way, and no others.
-/

set_option autoImplicit false
set_option relaxedAutoImplicit false

namespace Roaming.Json

open Roaming.Text

/-! ### Blanks -/

/-- Whether there is nothing but blanks. -/
def Blank (gap : Bytes) : Prop :=
  ∀ b ∈ gap, isBlank b = true

/-- What stands before an item or a member: blanks, and a comma unless it is the first. -/
def Before : Bool → Bytes → Prop
  | true, gap => Blank gap
  | false, gap => ∃ front back, Blank front ∧ Blank back ∧ gap = front ++ 44 :: back

/-- What stands between a name and a value. -/
def Colon (gap : Bytes) : Prop :=
  ∃ front back, Blank front ∧ Blank back ∧ gap = front ++ 58 :: back

/-- A member of an object as it stands in a text: its name and the text of its value. -/
structure Member where
  name : String
  text : Bytes

/-- How the texts of items stand in a list. -/
def Listed : Bool → List Bytes → Bytes → Prop
  | _, [], inner => Blank inner
  | first, own :: owns, inner => ∃ gap more, Before first gap ∧ Listed false owns more ∧
      inner = gap ++ (own ++ more)

/-- How members stand in an object. -/
def Laid : Bool → List Member → Bytes → Prop
  | _, [], inner => Blank inner
  | first, m :: members, inner => ∃ gap label colon more, Before first gap ∧
      readText label = .ok (m.name, []) ∧ Colon colon ∧ Laid false members more ∧
      inner = gap ++ 34 :: (label ++ (colon ++ (m.text ++ more)))

theorem blank_nil : Blank [] := by
  simp [Blank]

theorem Blank.append {front back : Bytes} (h : Blank front) (h' : Blank back) :
    Blank (front ++ back) := by
  intro b hb
  rcases List.mem_append.mp hb with hb | hb
  · exact h b hb
  · exact h' b hb

theorem skipBlanks_append {gap : Bytes} (h : Blank gap) (text : Bytes) :
    skipBlanks (gap ++ text) = skipBlanks text := by
  induction gap with
  | nil => rfl
  | cons b gap ih =>
    rw [List.cons_append, skipBlanks, if_pos (h b List.mem_cons_self)]
    exact ih fun b' hb' => h b' (List.mem_cons_of_mem _ hb')

theorem skipBlanks_blank {gap : Bytes} (h : Blank gap) : skipBlanks gap = [] := by
  have hskip := skipBlanks_append h []
  rwa [List.append_nil] at hskip

theorem skipBlanks_cons {b : UInt8} (h : isBlank b = false) (rest : Bytes) :
    skipBlanks (b :: rest) = b :: rest := by
  rw [skipBlanks, h]
  rfl

theorem skipBlanks_comma (rest : Bytes) : skipBlanks (44 :: rest) = 44 :: rest :=
  rfl

/-- What is behind the blanks of a text does not start with one. -/
theorem exists_blank (text : Bytes) : ∃ gap, Blank gap ∧ text = gap ++ skipBlanks text ∧
    ∀ b ∈ (skipBlanks text).head?, isBlank b = false := by
  induction text with
  | nil => exact ⟨[], blank_nil, rfl, by simp [skipBlanks]⟩
  | cons b text ih =>
    obtain ⟨gap, hgap, htext, hhead⟩ := ih
    by_cases hb : isBlank b = true
    · refine ⟨b :: gap, ?_, ?_, ?_⟩
      · simpa [Blank, hb] using hgap
      · rw [skipBlanks, if_pos hb, List.cons_append, ← htext]
      · rwa [skipBlanks, if_pos hb]
    · rw [skipBlanks, if_neg hb]
      exact ⟨[], blank_nil, rfl, by simpa using hb⟩

/-- A text whose first byte behind blanks is known. -/
theorem exists_blank_of_cons {text rest : Bytes} {b : UInt8} (h : skipBlanks text = b :: rest) :
    ∃ gap, Blank gap ∧ text = gap ++ b :: rest := by
  obtain ⟨gap, hgap, htext, -⟩ := exists_blank text
  exact ⟨gap, hgap, by rw [← h]; exact htext⟩

theorem blank_of_skipBlanks {text : Bytes} (h : skipBlanks text = []) : Blank text := by
  obtain ⟨gap, hgap, htext, -⟩ := exists_blank text
  rw [h, List.append_nil] at htext
  rwa [htext]

/-- No number goes on behind blanks. -/
theorem endsNumber_append {gap : Bytes} (h : Blank gap) {rest : Bytes} (hr : EndsNumber rest) :
    EndsNumber (gap ++ rest) := by
  cases gap with
  | nil => exact hr
  | cons b gap =>
    have hb := h b List.mem_cons_self
    refine endsNumber_cons _ ?_
    simp only [isBlank, Bool.or_eq_true, beq_iff_eq] at hb
    rcases hb with ((rfl | rfl) | rfl) | rfl <;> decide

/-! ### Tokens -/

theorem readColon_append {gap : Bytes} (h : Colon gap) (rest : Bytes) :
    ∃ back, Blank back ∧ readColon (gap ++ rest) = .ok (back ++ rest) := by
  obtain ⟨front, back, hfront, hback, rfl⟩ := h
  refine ⟨back, hback, ?_⟩
  unfold readColon
  rw [List.append_assoc, skipBlanks_append hfront]
  rfl

theorem exists_colon {text rest : Bytes} (h : readColon text = .ok rest) :
    ∃ front, Blank front ∧ text = front ++ 58 :: rest := by
  unfold readColon at h
  split at h
  · cases h
  · next more hskip =>
    obtain rfl := Except.ok.inj h
    exact exists_blank_of_cons hskip
  · cases h

theorem leaveList_append {gap : Bytes} (h : Blank gap) (rest : Bytes) :
    leaveList (gap ++ 93 :: rest) = .ok rest := by
  unfold leaveList
  rw [skipBlanks_append h]
  rfl

theorem finish_ok_iff {text : Bytes} : finish text = .ok () ↔ Blank text := by
  unfold finish
  constructor
  · intro h
    split at h
    · next hskip => exact blank_of_skipBlanks hskip
    · cases h
  · intro h
    rw [skipBlanks_blank h]

theorem Before.append {first : Bool} {gap back : Bytes} (h : Before first gap)
    (hback : Blank back) : Before first (gap ++ back) := by
  cases first with
  | true => exact Blank.append h hback
  | false =>
    obtain ⟨front, middle, hfront, hmiddle, rfl⟩ := h
    exact ⟨front, middle ++ back, hfront, hmiddle.append hback, by simp⟩

theorem endsNumber_before {gap : Bytes} (h : Before false gap) (rest : Bytes) :
    EndsNumber (gap ++ rest) := by
  obtain ⟨front, back, hfront, -, rfl⟩ := h
  rw [List.append_assoc]
  exact endsNumber_append hfront (endsNumber_cons _ (by decide))

section Next

variable {first : Bool} {gap text rest : Bytes}

theorem nextItem_before (h : Before first gap) (ht : StartsValue text) :
    nextItem first (gap ++ text) = .ok (.item text) := by
  cases first with
  | true =>
    rw [← nextItem_first ht]
    unfold nextItem
    rw [skipBlanks_append h]
  | false =>
    obtain ⟨front, back, hfront, hback, rfl⟩ := h
    rw [← nextItem_more ht]
    unfold nextItem
    rw [List.append_assoc, skipBlanks_append hfront, List.cons_append, skipBlanks_comma,
      skipBlanks_comma]
    simp [skipBlanks_append hback]

theorem nextItem_end (h : Blank gap) (rest : Bytes) :
    nextItem first (gap ++ 93 :: rest) = .ok (.finish (93 :: rest)) := by
  unfold nextItem
  rw [skipBlanks_append h]
  rfl

theorem exists_before_of_item (h : nextItem first text = .ok (.item rest)) :
    ∃ gap, Before first gap ∧ text = gap ++ rest := by
  unfold nextItem at h
  split at h
  · cases h
  · cases h
  · next b more hne hskip =>
    obtain ⟨gap, hgap, htext⟩ := exists_blank_of_cons hskip
    split at h
    · next hfirst =>
      subst hfirst
      obtain rfl := NextItem.item.inj (Except.ok.inj h)
      exact ⟨gap, hgap, htext⟩
    · next hfirst =>
      obtain rfl := eq_false_of_ne_true hfirst
      split at h
      · next hcomma =>
        obtain ⟨back, hback, hmore, -⟩ := exists_blank more
        split at h
        · cases h
        · cases h
        · obtain rfl := NextItem.item.inj (Except.ok.inj h)
          refine ⟨gap ++ 44 :: back, ⟨gap, back, hgap, hback, rfl⟩, ?_⟩
          rw [htext, hcomma, List.append_assoc, List.cons_append, ← hmore]
      · cases h

theorem exists_blank_of_end (h : nextItem first text = .ok (.finish rest)) :
    ∃ gap more, Blank gap ∧ text = gap ++ rest ∧ rest = 93 :: more := by
  unfold nextItem at h
  split at h
  · cases h
  · next more hskip =>
    obtain ⟨gap, hgap, htext⟩ := exists_blank_of_cons hskip
    obtain rfl := NextItem.finish.inj (Except.ok.inj h)
    exact ⟨gap, more, hgap, htext, rfl⟩
  · split at h
    · cases h
    · split at h
      · split at h <;> cases h
      · cases h

theorem nextName_before (h : Before first gap) (rest : Bytes) :
    nextName first (gap ++ 34 :: rest) = .ok (.name rest) := by
  cases first with
  | true =>
    unfold nextName
    rw [skipBlanks_append h]
    rfl
  | false =>
    obtain ⟨front, back, hfront, hback, rfl⟩ := h
    have hquote : skipBlanks (34 :: rest) = 34 :: rest := rfl
    unfold nextName
    rw [List.append_assoc, skipBlanks_append hfront, List.cons_append, skipBlanks_comma]
    simp [skipBlanks_append hback, hquote]

theorem nextName_end (h : Blank gap) (rest : Bytes) :
    nextName first (gap ++ 125 :: rest) = .ok (.finish (125 :: rest)) := by
  unfold nextName
  rw [skipBlanks_append h]
  rfl

theorem exists_before_of_name (h : nextName first text = .ok (.name rest)) :
    ∃ gap, Before first gap ∧ text = gap ++ 34 :: rest := by
  unfold nextName at h
  split at h
  · cases h
  · cases h
  · next b more hne hskip =>
    obtain ⟨gap, hgap, htext⟩ := exists_blank_of_cons hskip
    split at h
    · next hfirst =>
      subst hfirst
      split at h
      · next hquote =>
        obtain rfl := NextName.name.inj (Except.ok.inj h)
        exact ⟨gap, hgap, hquote ▸ htext⟩
      · cases h
    · next hfirst =>
      obtain rfl := eq_false_of_ne_true hfirst
      split at h
      · next hcomma =>
        split at h
        · cases h
        · next hquote =>
          obtain ⟨back, hback, hmore⟩ := exists_blank_of_cons hquote
          obtain rfl := NextName.name.inj (Except.ok.inj h)
          refine ⟨gap ++ 44 :: back, ⟨gap, back, hgap, hback, rfl⟩, ?_⟩
          rw [htext, hcomma, List.append_assoc, List.cons_append, ← hmore]
        · cases h
        · cases h
      · cases h

theorem exists_blank_of_close (h : nextName first text = .ok (.finish rest)) :
    ∃ gap more, Blank gap ∧ text = gap ++ rest ∧ rest = 125 :: more := by
  unfold nextName at h
  split at h
  · cases h
  · next more hskip =>
    obtain ⟨gap, hgap, htext⟩ := exists_blank_of_cons hskip
    obtain rfl := NextName.finish.inj (Except.ok.inj h)
    exact ⟨gap, more, hgap, htext, rfl⟩
  · split at h
    · split at h <;> cases h
    · split at h
      · split at h <;> cases h
      · cases h

end Next

end Roaming.Json
