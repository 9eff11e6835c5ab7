import Roaming.Proofs.Skipping

/-!
# What is passed over

The value of a member that nobody asks for is passed over. Its text ends where it ends, whatever
follows (`Passable`), and may be deeper than any value that is read.
-/

set_option autoImplicit false
set_option relaxedAutoImplicit false

namespace Roaming.Json

open Roaming.Text

/-! ### Texts -/

section Texts

variable {text rest : Bytes}

private theorem skipEscape_cut {fuel : Nat} (h : skipTextWith (fuel + 1) (92 :: text) = .ok rest) :
    ∃ own left, text = own ++ left ∧ own ≠ [] ∧ skipTextWith fuel left = .ok rest ∧
      ∀ fuel' more, skipTextWith (fuel' + 1) (92 :: (own ++ more)) = skipTextWith fuel' more := by
  have hquote : (92 : UInt8) ≠ 34 := by decide
  cases text with
  | nil => cases h
  | cons c text =>
    by_cases hc : c = 117
    · subst hc
      rw [skipTextWith, if_neg hquote, if_pos rfl] at h
      cases hhex : readHex4 text with
      | error e =>
        simp only [hhex] at h
        cases h
      | ok p =>
        obtain ⟨n, left⟩ := p
        obtain ⟨own, rfl, hlen, htakes⟩ := readHex4_cut hhex
        simp only [hhex] at h
        exact ⟨117 :: own, left, rfl, List.cons_ne_nil _ _, h,
          fun fuel' more => skipTextWith_hex4 ⟨hlen, n, htakes⟩ fuel' more⟩
    · rw [skipTextWith, if_neg hquote, if_pos rfl] at h
      · cases hletter : shortEscape? c with
        | none =>
          simp only [hletter] at h
          cases h
        | some d =>
          simp only [hletter] at h
          exact ⟨[c], text, rfl, List.cons_ne_nil _ _, h,
            fun fuel' more => skipTextWith_letter hletter fuel' more⟩
      · exact hc

private theorem skipTextWith_cut {fuel : Nat} (h : skipTextWith fuel text = .ok rest) :
    ∃ own, text = own ++ rest ∧ ∀ fuel' more, own.length ≤ fuel' →
      skipTextWith fuel' (own ++ more) = .ok more := by
  induction fuel generalizing text with
  | zero => cases h
  | succ fuel ih =>
    cases text with
    | nil => cases h
    | cons b text =>
      by_cases hquote : b = 34
      · subst hquote
        obtain rfl := Except.ok.inj h
        refine ⟨[34], rfl, fun fuel' more hf => ?_⟩
        obtain ⟨fuel', rfl⟩ : ∃ f, fuel' = f + 1 := ⟨fuel' - 1, by simp at hf; omega⟩
        rfl
      by_cases hslash : b = 92
      · subst hslash
        obtain ⟨escape, left, rfl, hne, hleft, hescape⟩ := skipEscape_cut h
        obtain ⟨own, rfl, hown⟩ := ih hleft
        have hpos := List.length_pos_iff.mpr hne
        refine ⟨92 :: (escape ++ own), by simp, fun fuel' more hf => ?_⟩
        simp only [List.length_cons, List.length_append] at hf
        obtain ⟨fuel', rfl⟩ : ∃ f, fuel' = f + 1 := ⟨fuel' - 1, by omega⟩
        rw [List.cons_append, List.append_assoc, hescape]
        exact hown fuel' more (by omega)
      by_cases hcontrol : b < 32
      · conv_lhs at h => unfold skipTextWith
        simp only [if_neg hquote, if_neg hslash, if_pos hcontrol] at h
        cases h
      · have hplain : IsPlain b := ⟨hquote, hslash, hcontrol⟩
        rw [skipTextWith_plain hplain] at h
        obtain ⟨own, rfl, hown⟩ := ih h
        refine ⟨b :: own, rfl, fun fuel' more hf => ?_⟩
        rw [List.length_cons] at hf
        obtain ⟨fuel', rfl⟩ : ∃ f, fuel' = f + 1 := ⟨fuel' - 1, by omega⟩
        rw [List.cons_append, skipTextWith_plain hplain]
        exact hown fuel' more (by omega)

private theorem skipText_cut (h : skipText text = .ok rest) :
    ∃ own, text = own ++ rest ∧ ∀ more, skipText (own ++ more) = .ok more := by
  obtain ⟨own, htext, hown⟩ := skipTextWith_cut h
  refine ⟨own, htext, fun more => hown _ more ?_⟩
  rw [List.length_append]
  omega

end Texts

/-! ### Numbers -/

section Numbers

variable {text left more : Bytes}

/-- Where no digit comes next, none does when something else follows that ends a number. -/
private theorem head_not_digit {own : Bytes} (h : ∀ b ∈ (own ++ left).head?, isDigit b = false)
    (hr : EndsNumber more) : ∀ b ∈ (own ++ more).head?, isDigit b = false := by
  cases own with
  | nil => exact fun b hb => (hr b hb).1
  | cons b own => exact h

private theorem skipExponentPart_ends (hr : EndsNumber more) :
    skipExponentPart more = .ok more := by
  cases more with
  | nil => rfl
  | cons b more =>
    obtain ⟨-, -, hlower, hupper⟩ := hr b rfl
    rw [skipExponentPart, if_neg (by simp [hlower, hupper])]

private theorem skipAfterInteger_of_ne {b : UInt8} (hb : b ≠ 46) (rest : Bytes) :
    skipAfterInteger (b :: rest) = skipExponentPart (b :: rest) :=
  skipAfterInteger.eq_2 _ fun _ he => hb (List.cons.inj he).1

private theorem skipAfterInteger_ends (hr : EndsNumber more) :
    skipAfterInteger more = .ok more := by
  cases more with
  | nil => rfl
  | cons b more =>
    rw [skipAfterInteger_of_ne (hr b rfl).2.1]
    exact skipExponentPart_ends hr

private theorem skipExponent_cut (h : skipExponent text = .ok left) :
    ∃ own, text = own ++ left ∧
      ∀ more, EndsNumber more → skipExponent (own ++ more) = .ok more := by
  unfold skipExponent at h
  cases hsign : exponentSign text with
  | mk down signless =>
    rw [hsign] at h
    cases signless with
    | nil => cases h
    | cons d signless =>
      obtain ⟨sign, rfl, hmore⟩ := exponentSign_cut hsign
      obtain ⟨ds, behind, hspan, rfl, hds, -⟩ := spanDigits_cut signless
      simp only at h
      split at h
      · next hdigit =>
        rw [hspan] at h
        obtain rfl := Except.ok.inj h
        refine ⟨sign ++ d :: ds, by simp, fun more hr => ?_⟩
        have hends : spanDigits (ds ++ more) = (ds, more) :=
          spanDigits_of_digits hds fun b hb => (hr b hb).1
        unfold skipExponent
        rw [List.append_assoc, List.cons_append, hmore]
        simp only [if_pos hdigit, hends]
      · cases h

private theorem skipExponentPart_cut (h : skipExponentPart text = .ok left) :
    ∃ own, text = own ++ left ∧
      ∀ more, EndsNumber more → skipExponentPart (own ++ more) = .ok more := by
  cases text with
  | nil =>
    obtain rfl := Except.ok.inj h
    exact ⟨[], rfl, fun more hr => skipExponentPart_ends hr⟩
  | cons b text =>
    rw [skipExponentPart] at h
    split at h
    · next hb =>
      obtain ⟨own, rfl, hown⟩ := skipExponent_cut h
      refine ⟨b :: own, rfl, fun more hr => ?_⟩
      rw [List.cons_append, skipExponentPart, if_pos hb]
      exact hown more hr
    · obtain rfl := Except.ok.inj h
      exact ⟨[], rfl, fun more hr => skipExponentPart_ends hr⟩

private theorem skipFraction_cut (h : skipFraction text = .ok left) :
    ∃ own, text = own ++ left ∧
      ∀ more, EndsNumber more → skipFraction (own ++ more) = .ok more := by
  obtain ⟨ds, behind, hspan, rfl, hds, hbehind⟩ := spanDigits_cut text
  unfold skipFraction at h
  rw [hspan] at h
  cases ds with
  | nil => cases h
  | cons d ds =>
    obtain ⟨own, rfl, hown⟩ := skipExponentPart_cut h
    refine ⟨d :: ds ++ own, by simp, fun more hr => ?_⟩
    have hends : spanDigits (d :: ds ++ (own ++ more)) = (d :: ds, own ++ more) :=
      spanDigits_of_digits hds (head_not_digit hbehind hr)
    unfold skipFraction
    rw [List.append_assoc, hends]
    exact hown more hr

private theorem skipAfterInteger_cut (h : skipAfterInteger text = .ok left) :
    ∃ own, text = own ++ left ∧
      ∀ more, EndsNumber more → skipAfterInteger (own ++ more) = .ok more := by
  cases text with
  | nil =>
    obtain rfl := Except.ok.inj h
    exact ⟨[], rfl, fun more hr => skipAfterInteger_ends hr⟩
  | cons b text =>
    by_cases hb : b = 46
    · subst hb
      obtain ⟨own, rfl, hown⟩ := skipFraction_cut h
      exact ⟨46 :: own, rfl, hown⟩
    · rw [skipAfterInteger_of_ne hb] at h
      obtain ⟨own, htext, hown⟩ := skipExponentPart_cut h
      refine ⟨own, htext, fun more hr => ?_⟩
      cases own with
      | nil => exact skipAfterInteger_ends hr
      | cons c own =>
        obtain rfl := (List.cons.inj htext).1
        rw [List.cons_append, skipAfterInteger_of_ne hb]
        exact hown more hr

/-- A zero is not followed by a digit. -/
private theorem skipUnsigned_zero {text : Bytes} (h : ∀ b ∈ text.head?, isDigit b = false) :
    skipUnsigned (48 :: text) = skipAfterInteger text := by
  cases text with
  | nil => rfl
  | cons b text => simp only [skipUnsigned, h b rfl, Bool.false_eq_true, ↓reduceIte]

private theorem skipUnsigned_cut {d : UInt8} (h : skipUnsigned (d :: text) = .ok left) :
    ∃ own, text = own ++ left ∧
      ∀ more, EndsNumber more → skipUnsigned (d :: (own ++ more)) = .ok more := by
  by_cases hzero : d = 48
  · subst hzero
    have hhead : ∀ b ∈ text.head?, isDigit b = false := by
      intro b hb
      cases text with
      | nil => cases hb
      | cons c text =>
        obtain rfl := Option.some.inj hb
        cases hdigit : isDigit c with
        | false => rfl
        | true =>
          simp only [skipUnsigned, hdigit, ↓reduceIte] at h
          cases h
    rw [skipUnsigned_zero hhead] at h
    obtain ⟨own, rfl, hown⟩ := skipAfterInteger_cut h
    refine ⟨own, rfl, fun more hr => ?_⟩
    rw [skipUnsigned_zero (head_not_digit hhead hr)]
    exact hown more hr
  · simp only [skipUnsigned, if_neg hzero] at h
    split at h
    · next hdigit =>
      obtain ⟨ds, behind, hspan, rfl, hds, hbehind⟩ := spanDigits_cut text
      rw [hspan] at h
      obtain ⟨own, rfl, hown⟩ := skipAfterInteger_cut h
      refine ⟨ds ++ own, by simp, fun more hr => ?_⟩
      have hends : spanDigits (ds ++ (own ++ more)) = (ds, own ++ more) :=
        spanDigits_of_digits hds (head_not_digit hbehind hr)
      rw [List.append_assoc]
      simp only [skipUnsigned, if_neg hzero, if_pos hdigit, hends]
      exact hown more hr
    · cases h

private theorem skipNumber_cut {b : UInt8} (h : skipNumber (b :: text) = .ok left) :
    ∃ own, text = own ++ left ∧
      ∀ more, EndsNumber more → skipNumber (b :: (own ++ more)) = .ok more := by
  by_cases hminus : b = 45
  · subst hminus
    cases text with
    | nil => cases h
    | cons d text =>
      obtain ⟨own, rfl, hown⟩ := skipUnsigned_cut h
      exact ⟨d :: own, rfl, hown⟩
  · have hsignless : ∀ text, skipNumber (b :: text) = skipUnsigned (b :: text) :=
      fun text => skipNumber.eq_2 _ fun _ he => hminus (List.cons.inj he).1
    rw [hsignless] at h
    obtain ⟨own, rfl, hown⟩ := skipUnsigned_cut h
    refine ⟨own, rfl, fun more hr => ?_⟩
    rw [hsignless]
    exact hown more hr

end Numbers

/-! ### Values -/

section Passing

variable {b : UInt8} {gap front back inner own name next : Bytes}

/-- Bytes passed over as a value, whatever follows, with two rounds for each of them. -/
def Passes (own : Bytes) : Prop :=
  ∀ fuel more, EndsNumber more → 2 * own.length ≤ fuel →
    skipValueWith fuel (own ++ more) = .ok more

/-- Bytes passed over as the items of a list, its end included. -/
def PassesItems (own : Bytes) : Prop :=
  ∀ fuel more, 2 * own.length ≤ fuel → skipItems fuel (own ++ more) = .ok more

/-- Bytes passed over as the members of an object, its end included. -/
def PassesMembers (own : Bytes) : Prop :=
  ∀ fuel more, 2 * own.length ≤ fuel → skipMembers fuel (own ++ more) = .ok more

/-- Bytes passed over as the name of a member, its colon included. -/
def PassesName (own : Bytes) : Prop :=
  ∀ more, skipName (own ++ more) = .ok more

private theorem passes_cons
    (h : ∀ fuel more, EndsNumber more → 2 * own.length + 1 ≤ fuel →
      skipValueWith (fuel + 1) (b :: (own ++ more)) = .ok more) : Passes (b :: own) := by
  intro fuel more hr hf
  rw [List.length_cons] at hf
  obtain ⟨fuel, rfl⟩ : ∃ f, fuel = f + 1 := ⟨fuel - 1, by omega⟩
  exact h fuel more hr (by omega)

private theorem passes_number (hb : startsNumber b = true)
    (h : ∀ more, EndsNumber more → skipNumber (b :: (own ++ more)) = .ok more) :
    Passes (b :: own) := by
  have hne : ∀ c, startsNumber c = false → b ≠ c := by
    rintro c hc rfl
    rw [hb] at hc
    cases hc
  refine passes_cons fun fuel more hr _ => ?_
  have hskip := (startsValue_of_startsNumber hb (own ++ more)).skipBlanks
  simp only [skipValueWith, hskip, if_neg (hne 110 (by decide)), if_neg (hne 116 (by decide)),
    if_neg (hne 102 (by decide)), if_pos hb]
  exact h more hr

private theorem passes_list_end (h : Blank inner) : Passes (91 :: (inner ++ [93])) := by
  refine passes_cons fun fuel more _ _ => ?_
  rw [List.append_assoc]
  exact skipValueWith_list_end h fuel more

private theorem passes_list (hfront : Blank front) (hstart : StartsValue own)
    (hown : PassesItems own) : Passes (91 :: (front ++ own)) := by
  refine passes_cons fun fuel more _ hf => ?_
  rw [List.length_append] at hf
  rw [List.append_assoc, skipValueWith_list hfront (hstart.append more)]
  exact hown fuel more (by omega)

private theorem passes_object_end (h : Blank inner) : Passes (123 :: (inner ++ [125])) := by
  refine passes_cons fun fuel more _ _ => ?_
  rw [List.append_assoc]
  exact skipValueWith_object_end h fuel more

private theorem passes_object (hfront : Blank front) (hown : PassesMembers (34 :: own)) :
    Passes (123 :: (front ++ 34 :: own)) := by
  refine passes_cons fun fuel more _ hf => ?_
  simp only [List.length_append, List.length_cons] at hf
  rw [List.append_assoc, List.cons_append, skipValueWith_object hfront]
  exact hown fuel more (by rw [List.length_cons]; omega)

private theorem StartsValue.length_pos (h : StartsValue own) : 0 < own.length := by
  obtain ⟨b, rest, rfl, -⟩ := h
  exact Nat.succ_pos _

private theorem skipItems_blanks (h : Blank gap) (fuel : Nat) (text : Bytes) :
    skipItems (fuel + 1 + 1) (gap ++ text) = skipItems (fuel + 1 + 1) text := by
  rw [skipItems, skipItems, skipValueWith_blanks h]

private theorem passesItems_last (hown : Passes own) (hback : Blank back) :
    PassesItems (own ++ (back ++ [93])) := by
  intro fuel more hf
  simp only [List.length_append, List.length_cons, List.length_nil] at hf
  obtain ⟨fuel, rfl⟩ : ∃ f, fuel = f + 1 := ⟨fuel - 1, by omega⟩
  have hends : EndsNumber (back ++ 93 :: more) :=
    endsNumber_append hback (endsNumber_cons _ (by decide))
  simp only [List.append_assoc, List.cons_append, List.nil_append, skipItems,
    hown fuel _ hends (by omega), skipBlanks_append hback]
  rfl

private theorem passesItems_more (hown : Passes own) (hback : Blank back) (hgap : Blank gap)
    (hstart : StartsValue next) (hnext : PassesItems next) :
    PassesItems (own ++ (back ++ 44 :: (gap ++ next))) := by
  intro fuel more hf
  have hpos := hstart.length_pos
  simp only [List.length_append, List.length_cons] at hf
  obtain ⟨fuel, rfl⟩ : ∃ f, fuel = f + 1 + 1 + 1 := ⟨fuel - 3, by omega⟩
  have hends : EndsNumber (back ++ 44 :: (gap ++ (next ++ more))) :=
    endsNumber_append hback (endsNumber_cons _ (by decide))
  have hrest := hnext (fuel + 1 + 1) more (by omega)
  rw [← skipItems_blanks hgap] at hrest
  simp only [List.append_assoc, List.cons_append, skipItems,
    hown (fuel + 1 + 1) _ hends (by omega), skipBlanks_append hback, skipBlanks_comma]
  exact hrest

private theorem skipMembers_blanks (h : Blank gap) (fuel : Nat) (text : Bytes) :
    skipMembers (fuel + 1) (gap ++ text) = skipMembers (fuel + 1) text := by
  have hname : skipName (gap ++ text) = skipName text := by
    unfold skipName
    rw [skipBlanks_append h]
  rw [skipMembers, skipMembers, hname]

private theorem passesMembers_last (hname : PassesName (34 :: name)) (hfront : Blank front)
    (hown : Passes own) (hback : Blank back) :
    PassesMembers (34 :: (name ++ (front ++ (own ++ (back ++ [125]))))) := by
  intro fuel more hf
  simp only [List.length_append, List.length_cons, List.length_nil] at hf
  obtain ⟨fuel, rfl⟩ : ∃ f, fuel = f + 1 + 1 := ⟨fuel - 2, by omega⟩
  have hends : EndsNumber (back ++ 125 :: more) :=
    endsNumber_append hback (endsNumber_cons _ (by decide))
  have hskip := hname (front ++ (own ++ (back ++ 125 :: more)))
  rw [List.cons_append] at hskip
  simp only [List.append_assoc, List.cons_append, List.nil_append, skipMembers, hskip,
    skipValueWith_blanks hfront, hown (fuel + 1) _ hends (by omega), skipBlanks_append hback]
  rfl

private theorem passesMembers_more (hname : PassesName (34 :: name)) (hfront : Blank front)
    (hown : Passes own) (hback : Blank back) (hgap : Blank gap)
    (hnext : PassesMembers (34 :: next)) :
    PassesMembers (34 :: (name ++ (front ++ (own ++ (back ++ 44 :: (gap ++ 34 :: next)))))) := by
  intro fuel more hf
  simp only [List.length_append, List.length_cons] at hf
  obtain ⟨fuel, rfl⟩ : ∃ f, fuel = f + 1 + 1 := ⟨fuel - 2, by omega⟩
  have hends : EndsNumber (back ++ 44 :: (gap ++ 34 :: (next ++ more))) :=
    endsNumber_append hback (endsNumber_cons _ (by decide))
  have hskip := hname (front ++ (own ++ (back ++ 44 :: (gap ++ 34 :: (next ++ more)))))
  have hrest := hnext (fuel + 1) more (by rw [List.length_cons]; omega)
  rw [← skipMembers_blanks hgap] at hrest
  rw [List.cons_append] at hskip
  simp only [List.append_assoc, List.cons_append, skipMembers, hskip, skipValueWith_blanks hfront,
    hown (fuel + 1) _ hends (by omega), skipBlanks_append hback, skipBlanks_comma]
  exact hrest

end Passing

/-- What is passed over as a word is the word. -/
private theorem word_cut {b c : UInt8} {word gap tail rest : Bytes} (hgap : Blank gap) (hb : b = c)
    (hc : isBlank c = false ∧ c ≠ 93) (h : readWord word tail = .ok rest)
    (hword : ∀ fuel more, skipValueWith (fuel + 1) (c :: (word ++ more)) = .ok more) :
    ∃ gap' own, Blank gap' ∧ StartsValue own ∧ gap ++ b :: tail = gap' ++ (own ++ rest) ∧
      Passes own := by
  refine ⟨gap, c :: word, hgap, startsValue_cons _ hc, ?_,
    passes_cons fun fuel more _ _ => hword fuel more⟩
  rw [hb, eq_append_of_readWord h, List.cons_append]

private theorem skipName_cut {text rest : Bytes} (h : skipName text = .ok rest) :
    ∃ gap own, Blank gap ∧ text = gap ++ 34 :: (own ++ rest) ∧ PassesName (34 :: own) := by
  unfold skipName at h
  split at h
  · cases h
  · next tail hskip =>
    obtain ⟨gap, hgap, rfl⟩ := exists_blank_of_cons hskip
    cases htext : skipText tail with
    | error e =>
      rw [htext] at h
      cases h
    | ok left =>
      rw [htext] at h
      obtain ⟨own, rfl, hown⟩ := skipText_cut htext
      obtain ⟨front, hfront, rfl⟩ := exists_colon h
      refine ⟨gap, own ++ (front ++ [58]), hgap, by simp, fun more => ?_⟩
      have hcolon : readColon (front ++ 58 :: more) = .ok more := by
        unfold readColon
        rw [skipBlanks_append hfront]
        rfl
      have hquote : skipBlanks (34 :: (own ++ (front ++ 58 :: more))) =
          34 :: (own ++ (front ++ 58 :: more)) := rfl
      simp only [List.append_assoc, List.cons_append, List.nil_append, skipName, hquote, hown, bind,
        Except.bind, hcolon]
  · cases h

/-! The recursion is on the rounds of the one who passes. -/

mutual

theorem skipValueWith_cut (fuel : Nat) {text rest : Bytes}
    (h : skipValueWith fuel text = .ok rest) :
    ∃ gap own, Blank gap ∧ StartsValue own ∧ text = gap ++ (own ++ rest) ∧ Passes own := by
  cases fuel with
  | zero => cases h
  | succ fuel =>
    rw [skipValueWith] at h
    split at h
    · cases h
    · next b tail hskip =>
      obtain ⟨gap, hgap, rfl⟩ := exists_blank_of_cons hskip
      split at h
      · next hb => exact word_cut hgap hb (by decide) h fun _ _ => rfl
      split at h
      · next hb => exact word_cut hgap hb (by decide) h fun _ _ => rfl
      split at h
      · next hb => exact word_cut hgap hb (by decide) h fun _ _ => rfl
      split at h
      · next hnumber =>
        obtain ⟨own, rfl, hown⟩ := skipNumber_cut h
        exact ⟨gap, b :: own, hgap, startsValue_of_startsNumber hnumber own, rfl,
          passes_number hnumber hown⟩
      split at h
      · next hb =>
        subst hb
        obtain ⟨own, rfl, hown⟩ := skipText_cut h
        exact ⟨gap, 34 :: own, hgap, startsValue_cons _ (by decide), rfl,
          passes_cons fun _ more _ _ => hown more⟩
      split at h
      · next hb =>
        subst hb
        split at h
        · cases h
        · next left hend =>
          obtain ⟨inner, hinner, rfl⟩ := exists_blank_of_cons hend
          obtain rfl := Except.ok.inj h
          exact ⟨gap, 91 :: (inner ++ [93]), hgap, startsValue_cons _ (by decide), by simp,
            passes_list_end hinner⟩
        · obtain ⟨front, hfront, htail, -⟩ := exists_blank tail
          obtain ⟨back, own, hback, hstart, hitems, hown⟩ := skipItems_cut fuel h
          refine ⟨gap, 91 :: (front ++ back ++ own), hgap, startsValue_cons _ (by decide), ?_,
            passes_list (hfront.append hback) hstart hown⟩
          rw [htail, hitems]
          simp
      split at h
      · next hb =>
        subst hb
        split at h
        · cases h
        · next left hend =>
          obtain ⟨inner, hinner, rfl⟩ := exists_blank_of_cons hend
          obtain rfl := Except.ok.inj h
          exact ⟨gap, 123 :: (inner ++ [125]), hgap, startsValue_cons _ (by decide), by simp,
            passes_object_end hinner⟩
        · obtain ⟨front, hfront, htail, -⟩ := exists_blank tail
          obtain ⟨back, own, hback, hmembers, hown⟩ := skipMembers_cut fuel h
          refine ⟨gap, 123 :: (front ++ back ++ 34 :: own), hgap, startsValue_cons _ (by decide),
            ?_, passes_object (hfront.append hback) hown⟩
          rw [htail, hmembers]
          simp
      · cases h

theorem skipItems_cut (fuel : Nat) {text rest : Bytes} (h : skipItems fuel text = .ok rest) :
    ∃ gap own, Blank gap ∧ StartsValue own ∧ text = gap ++ (own ++ rest) ∧ PassesItems own := by
  cases fuel with
  | zero => cases h
  | succ fuel =>
    rw [skipItems] at h
    split at h
    · cases h
    · next left hv =>
      obtain ⟨gap, own, hgap, hstart, rfl, hown⟩ := skipValueWith_cut fuel hv
      split at h
      · cases h
      · next left hend =>
        obtain ⟨back, hback, rfl⟩ := exists_blank_of_cons hend
        obtain rfl := Except.ok.inj h
        exact ⟨gap, own ++ (back ++ [93]), hgap, hstart.append _, by simp,
          passesItems_last hown hback⟩
      · next left hcomma =>
        obtain ⟨back, hback, rfl⟩ := exists_blank_of_cons hcomma
        obtain ⟨gap', next, hgap', hnext, rfl, hpasses⟩ := skipItems_cut fuel h
        exact ⟨gap, own ++ (back ++ 44 :: (gap' ++ next)), hgap, hstart.append _, by simp,
          passesItems_more hown hback hgap' hnext hpasses⟩
      · cases h

theorem skipMembers_cut (fuel : Nat) {text rest : Bytes} (h : skipMembers fuel text = .ok rest) :
    ∃ gap own, Blank gap ∧ text = gap ++ 34 :: (own ++ rest) ∧ PassesMembers (34 :: own) := by
  cases fuel with
  | zero => cases h
  | succ fuel =>
    rw [skipMembers] at h
    split at h
    · cases h
    · next left hname =>
      obtain ⟨gap, name, hgap, rfl, hskip⟩ := skipName_cut hname
      split at h
      · cases h
      · next left' hv =>
        obtain ⟨front, own, hfront, -, rfl, hown⟩ := skipValueWith_cut fuel hv
        split at h
        · cases h
        · next left hend =>
          obtain ⟨back, hback, rfl⟩ := exists_blank_of_cons hend
          obtain rfl := Except.ok.inj h
          exact ⟨gap, name ++ (front ++ (own ++ (back ++ [125]))), hgap, by simp,
            passesMembers_last hskip hfront hown hback⟩
        · next left hcomma =>
          obtain ⟨back, hback, rfl⟩ := exists_blank_of_cons hcomma
          obtain ⟨gap', next, hgap', rfl, hpasses⟩ := skipMembers_cut fuel h
          exact ⟨gap, name ++ (front ++ (own ++ (back ++ 44 :: (gap' ++ 34 :: next)))),
            hgap, by simp, passesMembers_more hskip hfront hown hback hgap' hpasses⟩
        · cases h

end

/-- Whether bytes are passed over as one value, and as nothing else. -/
def Passable (own : Bytes) : Prop :=
  skipBlanks own = own ∧ skipValue own = .ok []

section Passable

variable {text own gap rest : Bytes}

private theorem passable_iff_passes : Passable own ↔ StartsValue own ∧ Passes own := by
  constructor
  · rintro ⟨htight, hskip⟩
    obtain ⟨front, own', hfront, hstart, htext, hown⟩ := skipValueWith_cut _ hskip
    rw [List.append_nil] at htext
    have hsame : own = own' := by
      rw [← htight, htext, skipBlanks_append hfront, hstart.skipBlanks]
    exact hsame ▸ ⟨hstart, hown⟩
  · rintro ⟨hstart, hown⟩
    have hskip := hown (rounds own) [] endsNumber_nil (by rw [rounds]; omega)
    rw [List.append_nil] at hskip
    exact ⟨hstart.skipBlanks, hskip⟩

theorem skipValue_cut (h : skipValue text = .ok rest) :
    ∃ gap own, Blank gap ∧ Passable own ∧ text = gap ++ (own ++ rest) := by
  obtain ⟨gap, own, hgap, hstart, htext, hown⟩ := skipValueWith_cut _ h
  exact ⟨gap, own, hgap, passable_iff_passes.mpr ⟨hstart, hown⟩, htext⟩

theorem Passable.skipValue_append (h : Passable own) (hgap : Blank gap) (hr : EndsNumber rest) :
    skipValue (gap ++ (own ++ rest)) = .ok rest := by
  obtain ⟨-, hown⟩ := passable_iff_passes.mp h
  rw [skipValue, rounds, skipValueWith_blanks hgap]
  exact hown _ rest hr (by simp only [List.length_append]; omega)

theorem Spells.passable {v : Value} (h : Spells v own) : Passable own := by
  have hskip := skipValue_spells h blank_nil endsNumber_nil
  rw [List.nil_append, List.append_nil] at hskip
  exact ⟨(startsValue_of_spells h).skipBlanks, hskip⟩

/-- The text of a value that is passed over goes on behind it as it was. -/
theorem Passable.skipBlanks_append (h : Passable own) (rest : Bytes) :
    skipBlanks (own ++ rest) = own ++ rest :=
  ((passable_iff_passes.mp h).1.append rest).skipBlanks

end Passable

/-! ### Objects -/

section Objects

variable {m : Member} {members : List Member} {label colon inner : Bytes}

/-- A name is passed over together with the colon, up to the blanks before the value. -/
private theorem passesName_laid (hlabel : readText label = .ok (m.name, []))
    (hcolon : Colon colon) : ∃ name back, Blank back ∧ label ++ colon = name ++ back ∧
    PassesName (34 :: name) := by
  obtain ⟨front, back, hfront, hback, rfl⟩ := hcolon
  refine ⟨label ++ (front ++ [58]), back, hback, by simp, fun more => ?_⟩
  have hquote : skipBlanks (34 :: (label ++ (front ++ 58 :: more))) =
      34 :: (label ++ (front ++ 58 :: more)) := rfl
  have hread : readColon (front ++ 58 :: more) = .ok more := by
    unfold readColon
    rw [Json.skipBlanks_append hfront]
    rfl
  simp only [List.append_assoc, List.cons_append, List.nil_append, skipName, hquote,
    skipText_append hlabel, bind, Except.bind, hread]

/-- The induction is on the members behind the first one. -/
private theorem passesMembers_laid (hm : Passable m.text)
    (hlabel : readText label = .ok (m.name, [])) (hcolon : Colon colon)
    (hmembers : ∀ m' ∈ members, Passable m'.text) (hl : Laid false members inner) :
    PassesMembers (34 :: (label ++ (colon ++ (m.text ++ (inner ++ [125]))))) := by
  obtain ⟨-, hown⟩ := passable_iff_passes.mp hm
  obtain ⟨name, back, hback, hname, hpasses⟩ := passesName_laid hlabel hcolon
  rw [← List.append_assoc label, hname, List.append_assoc name]
  induction members generalizing m label colon inner name back with
  | nil => exact passesMembers_last hpasses hback hown hl
  | cons m' members ih =>
    obtain ⟨gap, label', colon', more, hgap, hlabel', hcolon', hmore, rfl⟩ := hl
    obtain ⟨front, gap', hfront, hgap', rfl⟩ := hgap
    obtain ⟨name', back', hback', hname', hpasses'⟩ := passesName_laid hlabel' hcolon'
    have hm' := hmembers m' List.mem_cons_self
    have hrest := ih hm' hlabel' hcolon' (fun n hn => hmembers n (List.mem_cons_of_mem _ hn)) hmore
      (passable_iff_passes.mp hm').2 name' back' hback' hname' hpasses'
    rw [← List.append_assoc name', ← hname', List.append_assoc] at hrest
    have hpassed := passesMembers_more hpasses hback hown hfront hgap' hrest
    simpa only [List.append_assoc, List.cons_append] using hpassed

/-- An object is passed over if each of its members is. -/
theorem passable_of_laid (hl : Laid true members inner) (h : ∀ m ∈ members, Passable m.text) :
    Passable (123 :: (inner ++ [125])) := by
  refine passable_iff_passes.mpr ⟨startsValue_cons _ (by decide), ?_⟩
  cases members with
  | nil => exact passes_object_end hl
  | cons m members =>
    obtain ⟨gap, label, colon, more, hgap, hlabel, hcolon, hmore, rfl⟩ := hl
    have hpassed := passesMembers_laid (h m List.mem_cons_self) hlabel hcolon
      (fun n hn => h n (List.mem_cons_of_mem _ hn)) hmore
    have hobject := passes_object hgap hpassed
    simpa only [List.append_assoc, List.cons_append] using hobject

end Objects

end Roaming.Json
