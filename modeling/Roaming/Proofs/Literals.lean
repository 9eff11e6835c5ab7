import Roaming.Json.Skip
import Roaming.Proofs.Numbers

/-!
# Where literals end

What a reader of literals takes from the front of a text is a literal of its own: it can be cut out,
and put in front of something else (`Takes`, and for numbers `EndsNumber`). Whoever passes over
values stops at the same places. A whole number that is not negative is written in its digits.
-/

set_option autoImplicit false
set_option relaxedAutoImplicit false

namespace Roaming.Json

open Roaming.Text

/-- Whether a reader takes exactly these bytes for `a`, whatever follows them. -/
def Takes {α : Type} (read : Bytes → Except Fault (α × Bytes)) (own : Bytes) (a : α) : Prop :=
  ∀ more, read (own ++ more) = .ok (a, more)

/-! ### Words -/

theorem eq_append_of_readWord {word text rest : Bytes} (h : readWord word text = .ok rest) :
    text = word ++ rest := by
  induction word generalizing text with
  | nil =>
    obtain rfl := Except.ok.inj h
    rfl
  | cons w word ih =>
    cases text with
    | nil => cases h
    | cons b text =>
      rw [readWord] at h
      split at h
      · next hb => rw [hb, ih h, List.cons_append]
      · cases h

/-! ### Texts -/

section Texts

variable {text rest : Bytes}

theorem readHex4_cut {n : Nat} (h : readHex4 text = .ok (n, rest)) :
    ∃ own, text = own ++ rest ∧ own.length = 4 ∧ Takes readHex4 own n := by
  unfold readHex4 at h
  split at h
  · next a b c d more =>
    refine ⟨[a, b, c, d], ?_⟩
    split at h
    · next ha hb hc hd =>
      obtain ⟨rfl, rfl⟩ := Prod.mk.inj (Except.ok.inj h)
      refine ⟨rfl, rfl, fun more => ?_⟩
      simp only [List.cons_append, List.nil_append, readHex4, ha, hb, hc, hd]
    · cases h
  · cases h

/-- Four hexadecimal digits. -/
def Hex4 (own : Bytes) : Prop :=
  own.length = 4 ∧ ∃ n, Takes readHex4 own n

/-- What may stand behind a backslash: a letter, the number of a character, or the numbers of the
two halves of one. -/
inductive EscapeForm : Bytes → Prop where
  | letter (b c : UInt8) (h : shortEscape? b = some c) : EscapeForm [b]
  | number (own : Bytes) (h : Hex4 own) : EscapeForm (117 :: own)
  | pair (high low : Bytes) (hhigh : Hex4 high) (hlow : Hex4 low) :
      EscapeForm (117 :: (high ++ 92 :: 117 :: low))

private theorem readLowSurrogate_cut {high n : Nat}
    (h : readLowSurrogate high text = .ok (n, rest)) :
    ∃ own, text = 92 :: 117 :: own ++ rest ∧ Hex4 own ∧
      Takes (readLowSurrogate high) (92 :: 117 :: own) n := by
  unfold readLowSurrogate at h
  split at h
  · cases h
  · cases h
  · next text =>
    cases hlow : readHex4 text with
    | error e =>
      rw [hlow] at h
      cases h
    | ok p =>
      obtain ⟨low, left⟩ := p
      obtain ⟨own, rfl, hlen, htakes⟩ := readHex4_cut hlow
      rw [hlow] at h
      simp only [bind, Except.bind, pure, Except.pure] at h
      split at h
      · next hrange =>
        obtain ⟨rfl, rfl⟩ := Prod.mk.inj (Except.ok.inj h)
        refine ⟨own, rfl, ⟨hlen, _, htakes⟩, fun more => ?_⟩
        simp only [List.cons_append, readLowSurrogate, htakes more, bind, Except.bind, pure,
          Except.pure, if_pos hrange]
      · cases h
  · cases h
  · cases h

private theorem readNumberedEscape_cut {bytes : Bytes}
    (h : readNumberedEscape text = .ok (bytes, rest)) :
    ∃ own, text = own ++ rest ∧ EscapeForm (117 :: own) ∧ Takes readNumberedEscape own bytes := by
  unfold readNumberedEscape at h
  cases hfirst : readHex4 text with
  | error e =>
    rw [hfirst] at h
    cases h
  | ok p =>
    obtain ⟨n, left⟩ := p
    obtain ⟨first, rfl, hlen, htakes⟩ := readHex4_cut hfirst
    have hhex : Hex4 first := ⟨hlen, n, htakes⟩
    rw [hfirst] at h
    simp only [bind, Except.bind, pure, Except.pure] at h
    by_cases hlone : 0xDC00 ≤ n ∧ n ≤ 0xDFFF
    · rw [if_pos hlone] at h
      cases h
    rw [if_neg hlone] at h
    by_cases hpair : 0xD800 ≤ n ∧ n ≤ 0xDBFF
    · simp only [if_pos hpair] at h
      cases hlow : readLowSurrogate n left with
      | error e =>
        rw [hlow] at h
        cases h
      | ok q =>
        obtain ⟨m, left'⟩ := q
        obtain ⟨second, rfl, hhex', htakes'⟩ := readLowSurrogate_cut hlow
        rw [hlow] at h
        obtain ⟨rfl, rfl⟩ := Prod.mk.inj (Except.ok.inj h)
        refine ⟨first ++ 92 :: 117 :: second, by simp, .pair _ _ hhex hhex', fun more => ?_⟩
        have hmore : readLowSurrogate n (92 :: 117 :: second ++ more) = .ok (m, more) :=
          htakes' more
        rw [List.append_assoc]
        simp only [readNumberedEscape, htakes (92 :: 117 :: second ++ more), bind,
          Except.bind, pure, Except.pure, if_neg hlone, if_pos hpair, hmore]
    · simp only [if_neg hpair] at h
      obtain ⟨rfl, rfl⟩ := Prod.mk.inj (Except.ok.inj h)
      refine ⟨first, rfl, .number _ hhex, fun more => ?_⟩
      simp only [readNumberedEscape, htakes more, bind, Except.bind, pure, Except.pure,
        if_neg hlone, if_neg hpair]

private theorem takes_letter {b c : UInt8} (h : shortEscape? b = some c) :
    Takes readEscape [b] [c] := by
  have hb : b ≠ 117 := by
    rintro rfl
    cases h
  intro more
  rw [List.singleton_append, readEscape.eq_3 _ _ hb, h]

private theorem readEscape_cut {bytes : Bytes} (h : readEscape text = .ok (bytes, rest)) :
    ∃ own, text = own ++ rest ∧ EscapeForm own ∧ Takes readEscape own bytes := by
  cases text with
  | nil => cases h
  | cons b text =>
    by_cases hb : b = 117
    · subst hb
      obtain ⟨own, rfl, hform, htakes⟩ := readNumberedEscape_cut h
      exact ⟨117 :: own, rfl, hform, htakes⟩
    · rw [readEscape.eq_3 _ _ hb] at h
      cases hletter : shortEscape? b with
      | none =>
        rw [hletter] at h
        cases h
      | some c =>
        rw [hletter] at h
        obtain ⟨rfl, rfl⟩ := Prod.mk.inj (Except.ok.inj h)
        exact ⟨[b], rfl, .letter b c hletter, takes_letter hletter⟩

/-- An escape by number takes one round for each number. -/
theorem skipTextWith_hex4 {own : Bytes} (h : Hex4 own) (fuel : Nat) (more : Bytes) :
    skipTextWith (fuel + 1) (92 :: 117 :: (own ++ more)) = skipTextWith fuel more := by
  obtain ⟨-, n, htakes⟩ := h
  have hquote : (92 : UInt8) ≠ 34 := by decide
  rw [skipTextWith, if_neg hquote, if_pos rfl]
  simp only [htakes more]

theorem skipTextWith_letter {b c : UInt8} (h : shortEscape? b = some c) (fuel : Nat)
    (more : Bytes) : skipTextWith (fuel + 1) (92 :: b :: more) = skipTextWith fuel more := by
  have hb : b ≠ 117 := by
    rintro rfl
    cases h
  have hquote : (92 : UInt8) ≠ 34 := by decide
  rw [skipTextWith, if_neg hquote, if_pos rfl]
  · simp only [h]
  · exact hb

theorem skipTextWith_plain {b : UInt8} (h : IsPlain b) (fuel : Nat) (more : Bytes) :
    skipTextWith (fuel + 1) (b :: more) = skipTextWith fuel more := by
  obtain ⟨hquote, hslash, hcontrol⟩ := h
  conv_lhs => unfold skipTextWith
  simp only [if_neg hquote, if_neg hslash, if_neg hcontrol]

/-- Whoever passes over an escape needs no more rounds than it has bytes. -/
private theorem skipTextWith_escape {own : Bytes} (h : EscapeForm own) (fuel : Nat)
    (hfuel : own.length ≤ fuel) (more : Bytes) :
    ∃ left, fuel ≤ left + own.length ∧
      skipTextWith (fuel + 1) (92 :: (own ++ more)) = skipTextWith left more := by
  cases h with
  | letter b c h =>
    refine ⟨fuel, by omega, ?_⟩
    exact skipTextWith_letter h fuel more
  | number own h =>
    refine ⟨fuel, by omega, ?_⟩
    exact skipTextWith_hex4 h fuel more
  | pair high low hhigh hlow =>
    have hlen := hhigh.1
    simp only [List.length_cons, List.length_append] at hfuel ⊢
    obtain ⟨fuel, rfl⟩ : ∃ f, fuel = f + 1 := ⟨fuel - 1, by omega⟩
    refine ⟨fuel, by omega, ?_⟩
    calc skipTextWith (fuel + 1 + 1) (92 :: (117 :: (high ++ 92 :: 117 :: low) ++ more))
        = skipTextWith (fuel + 1 + 1) (92 :: 117 :: (high ++ (92 :: 117 :: (low ++ more)))) := by
          simp
      _ = skipTextWith (fuel + 1) (92 :: 117 :: (low ++ more)) := skipTextWith_hex4 hhigh _ _
      _ = skipTextWith fuel more := skipTextWith_hex4 hlow _ _

/-- The bytes of a text can be cut out behind its closing quote, and are passed over up to there.
The induction is on the rounds of the reader. -/
private theorem readTextBytes_cut {fuel : Nat} {taken bytes : Bytes}
    (h : readTextBytes fuel taken text = .ok (bytes, rest)) :
    ∃ own, text = own ++ rest ∧ ∀ more fuel', own.length ≤ fuel' →
      readTextBytes fuel' taken (own ++ more) = .ok (bytes, more) ∧
        skipTextWith fuel' (own ++ more) = .ok more := by
  induction fuel generalizing taken text with
  | zero => cases h
  | succ fuel ih =>
    cases text with
    | nil => cases h
    | cons b text =>
      rw [readTextBytes] at h
      split at h
      · next hquote =>
        obtain ⟨rfl, rfl⟩ := Prod.mk.inj (Except.ok.inj h)
        refine ⟨[b], rfl, fun more fuel' hfuel => ?_⟩
        obtain ⟨fuel', rfl⟩ : ∃ f, fuel' = f + 1 := ⟨fuel' - 1, by simp at hfuel; omega⟩
        subst hquote
        exact ⟨rfl, rfl⟩
      split at h
      · next hquote hslash =>
        cases hescape : readEscape text with
        | error e =>
          rw [hescape] at h
          cases h
        | ok p =>
          obtain ⟨c, left⟩ := p
          obtain ⟨escape, rfl, hform, htakes⟩ := readEscape_cut hescape
          rw [hescape] at h
          obtain ⟨own, rfl, hown⟩ := ih h
          refine ⟨b :: (escape ++ own), by simp, fun more fuel' hfuel => ?_⟩
          simp only [List.length_cons, List.length_append] at hfuel
          obtain ⟨fuel', rfl⟩ : ∃ f, fuel' = f + 1 := ⟨fuel' - 1, by omega⟩
          obtain ⟨left, hleft, hskip⟩ :=
            skipTextWith_escape hform fuel' (by omega) (own ++ more)
          rw [List.cons_append, List.append_assoc]
          constructor
          · rw [readTextBytes, if_neg hquote, if_pos hslash]
            simp only [htakes (own ++ more)]
            exact (hown more fuel' (by omega)).1
          · rw [hslash, hskip]
            exact (hown more left (by omega)).2
      split at h
      · cases h
      · next hquote hslash hcontrol =>
        obtain ⟨own, rfl, hown⟩ := ih h
        refine ⟨b :: own, rfl, fun more fuel' hfuel => ?_⟩
        rw [List.length_cons] at hfuel
        obtain ⟨fuel', rfl⟩ : ∃ f, fuel' = f + 1 := ⟨fuel' - 1, by omega⟩
        rw [List.cons_append, readTextBytes, if_neg hquote, if_neg hslash, if_neg hcontrol,
          skipTextWith_plain ⟨hquote, hslash, hcontrol⟩]
        exact hown more fuel' (by omega)

/-- A text literal can be cut out behind its closing quote, and is passed over up to there. -/
theorem readText_cut {s : String} (h : readText text = .ok (s, rest)) :
    ∃ own, text = own ++ rest ∧ Takes readText own s ∧
      ∀ more, skipText (own ++ more) = .ok more := by
  unfold readText at h
  cases hbytes : readTextBytes (text.length + 1) [] text with
  | error e =>
    rw [hbytes] at h
    cases h
  | ok p =>
    obtain ⟨bytes, left⟩ := p
    obtain ⟨own, htext, hown⟩ := readTextBytes_cut hbytes
    rw [hbytes] at h
    simp only [bind, Except.bind, pure, Except.pure] at h
    cases hutf8 : ofUtf8? bytes with
    | none =>
      rw [hutf8] at h
      cases h
    | some t =>
      rw [hutf8] at h
      obtain ⟨rfl, rfl⟩ := Prod.mk.inj (Except.ok.inj h)
      have hfuel : ∀ more, own.length ≤ (own ++ more).length + 1 := by
        intro more
        rw [List.length_append]
        omega
      refine ⟨own, htext, fun more => ?_, fun more => (hown more _ (hfuel more)).2⟩
      simp only [readText, (hown more _ (hfuel more)).1, bind, Except.bind, pure,
        Except.pure, hutf8]

/-- What is a text literal on its own is taken for the same text whatever follows. -/
theorem takes_readText {s : String} (h : readText text = .ok (s, [])) : Takes readText text s := by
  obtain ⟨own, htext, htakes, -⟩ := readText_cut h
  rw [htext, List.append_nil]
  exact htakes

theorem skipText_append {s : String} (h : readText text = .ok (s, [])) (more : Bytes) :
    skipText (text ++ more) = .ok more := by
  obtain ⟨own, htext, -, hskip⟩ := readText_cut h
  rw [htext, List.append_nil]
  exact hskip more

end Texts

/-! ### Numbers -/

section Numbers

variable {text left : Bytes} {negative : Bool} {sig : Nat} {exp : Int}

theorem spanDigits_cut (text : Bytes) : ∃ ds behind, spanDigits text = (ds, behind) ∧
    text = ds ++ behind ∧ (∀ d ∈ ds, isDigit d = true) ∧ ∀ b ∈ behind.head?, isDigit b = false := by
  refine ⟨text.takeWhile isDigit, text.dropWhile isDigit, List.span_eq_takeWhile_dropWhile _ _,
    List.takeWhile_append_dropWhile.symm, fun d hd => List.mem_takeWhile_imp hd, ?_⟩
  intro b hb
  have hhead := List.head?_dropWhile_not isDigit text
  rw [hb] at hhead
  simpa using hhead

theorem spanDigits_of_digits {ds behind : Bytes} (hds : ∀ d ∈ ds, isDigit d = true)
    (hbehind : ∀ b ∈ behind.head?, isDigit b = false) :
    spanDigits (ds ++ behind) = (ds, behind) := by
  have htake : (ds ++ behind).takeWhile isDigit = ds := by
    rw [List.takeWhile_append_of_pos hds]
    cases behind with
    | nil => simp
    | cons b behind => simp [hbehind b rfl]
  have hdrop : (ds ++ behind).dropWhile isDigit = behind := by
    rw [List.dropWhile_append_of_pos hds]
    cases behind with
    | nil => rfl
    | cons b behind => simp [hbehind b rfl]
  rw [spanDigits, List.span_eq_takeWhile_dropWhile, htake, hdrop]

private theorem head_of_append {own : Bytes} {P : UInt8 → Prop}
    (h : ∀ b ∈ (own ++ left).head?, P b) : ∀ b ∈ own.head?, P b := by
  cases own with
  | nil => simp
  | cons b own => exact h

private theorem finishReal_ok {x : Float} (h : finishReal negative sig exp text = .ok (x, left)) :
    left = text ∧ ∀ more, finishReal negative sig exp more = .ok (x, more) := by
  unfold finishReal at h ⊢
  split at h
  · next hparts =>
    obtain ⟨rfl, rfl⟩ := Prod.mk.inj (Except.ok.inj h)
    exact ⟨rfl, fun more => rfl⟩
  · cases h

theorem exponentSign_cut {down : Bool} {d : UInt8} {rest : Bytes}
    (h : exponentSign text = (down, d :: rest)) :
    ∃ sign, text = sign ++ d :: rest ∧
      ∀ more, exponentSign (sign ++ d :: more) = (down, d :: more) := by
  unfold exponentSign at h
  split at h
  · obtain ⟨rfl, rfl⟩ := Prod.mk.inj h
    exact ⟨[43], rfl, fun more => rfl⟩
  · obtain ⟨rfl, rfl⟩ := Prod.mk.inj h
    exact ⟨[45], rfl, fun more => rfl⟩
  · next hplus hminus =>
    obtain ⟨rfl, rfl⟩ := Prod.mk.inj h
    refine ⟨[], rfl, fun more => ?_⟩
    apply exponentSign.eq_3
    · exact fun _ he => hplus rest (congrArg (· :: rest) (List.cons.inj he).1)
    · exact fun _ he => hminus rest (congrArg (· :: rest) (List.cons.inj he).1)

private theorem readExponent_cut {x : Float}
    (h : readExponent negative sig exp text = .ok (x, left)) :
    ∃ own, text = own ++ left ∧ readExponent negative sig exp own = .ok (x, []) ∧
      skipExponent text = .ok left := by
  unfold readExponent at h
  unfold skipExponent
  cases hsign : exponentSign text with
  | mk down signless =>
    rw [hsign] at h
    cases signless with
    | nil => cases h
    | cons d signless =>
      obtain ⟨sign, rfl, hmore⟩ := exponentSign_cut hsign
      obtain ⟨ds, behind, hspan, rfl, hds, -⟩ := spanDigits_cut signless
      have hown : spanDigits ds = (ds, []) := by
        have hnil : spanDigits (ds ++ []) = (ds, []) := spanDigits_of_digits hds (by simp)
        rwa [List.append_nil] at hnil
      simp only at h ⊢
      split at h
      · next hdigit =>
        rw [if_pos hdigit]
        rw [hspan] at h ⊢
        simp only at h ⊢
        split at h
        · next e habsorb =>
          obtain ⟨rfl, hfinish⟩ := finishReal_ok h
          refine ⟨sign ++ d :: ds, by simp, ?_, rfl⟩
          unfold readExponent
          rw [hmore]
          simp only [if_pos hdigit, hown, habsorb]
          exact hfinish []
        · next e d' more habsorb =>
          split at h
          · cases h
          · next hrange =>
            obtain ⟨rfl, rfl⟩ := Prod.mk.inj (Except.ok.inj h)
            refine ⟨sign ++ d :: ds, by simp, ?_, rfl⟩
            unfold readExponent
            rw [hmore]
            simp only [if_pos hdigit, hown, habsorb, if_neg hrange]
      · cases h

private theorem readExponentPart_cut {x : Float}
    (h : readExponentPart negative sig exp text = .ok (x, left)) :
    ∃ own, text = own ++ left ∧ readExponentPart negative sig exp own = .ok (x, []) ∧
      skipExponentPart text = .ok left := by
  cases text with
  | nil =>
    obtain ⟨rfl, hfinish⟩ := finishReal_ok h
    exact ⟨[], rfl, hfinish [], rfl⟩
  | cons b text =>
    simp only [readExponentPart, skipExponentPart] at h ⊢
    by_cases hb : b = 101 ∨ b = 69
    · rw [if_pos hb] at h ⊢
      obtain ⟨own, rfl, hown, hskip⟩ := readExponent_cut h
      refine ⟨b :: own, rfl, ?_, hskip⟩
      simp only [if_pos hb]
      exact hown
    · rw [if_neg hb] at h ⊢
      obtain ⟨rfl, hfinish⟩ := finishReal_ok h
      exact ⟨[], rfl, hfinish [], rfl⟩

private theorem readFraction_cut {x : Float}
    (h : readFraction negative sig exp text = .ok (x, left)) :
    ∃ own, text = own ++ left ∧ readFraction negative sig exp own = .ok (x, []) ∧
      skipFraction text = .ok left := by
  obtain ⟨ds, behind, hspan, rfl, hds, hbehind⟩ := spanDigits_cut text
  unfold readFraction at h
  unfold skipFraction
  rw [hspan] at h ⊢
  cases ds with
  | nil => cases behind <;> cases h
  | cons d ds =>
    obtain ⟨own, rfl, hown, hskip⟩ := readExponentPart_cut h
    refine ⟨d :: ds ++ own, by simp, ?_, hskip⟩
    unfold readFraction
    rw [spanDigits_of_digits hds (head_of_append hbehind)]
    exact hown

/-- What follows the digits of an integer part: a fraction, an exponent, or nothing that
belongs to the number. -/
private theorem readAfterInteger_cut {surplus : Nat} {n : Number}
    (h : readAfterInteger negative sig surplus text = .ok (n, left)) :
    ∃ own, text = own ++ left ∧ readAfterInteger negative sig surplus own = .ok (n, []) ∧
      skipAfterInteger text = .ok left := by
  have hreal : ∀ {r : Except Fault (Float × Bytes)},
      r.map (fun p => (Number.real p.1, p.2)) = .ok (n, left) →
      ∃ x, n = .real x ∧ r = .ok (x, left) := by
    intro r hr
    cases r with
    | error e => cases hr
    | ok p =>
      obtain ⟨rfl, rfl⟩ := Prod.mk.inj (Except.ok.inj hr)
      exact ⟨_, rfl, rfl⟩
  by_cases hplain : ∀ b ∈ text.head?, b ≠ 46 ∧ b ≠ 101 ∧ b ≠ 69
  · have hskip : skipAfterInteger text = .ok text := by
      cases text with
      | nil => rfl
      | cons b text =>
        obtain ⟨hpoint, hlower, hupper⟩ := hplain b rfl
        rw [skipAfterInteger.eq_2 _ fun _ he => hpoint (List.cons.inj he).1, skipExponentPart,
          if_neg (by simp [hlower, hupper])]
    have hnone : ∀ b ∈ ([] : Bytes).head?, b ≠ 46 ∧ b ≠ 101 ∧ b ≠ 69 := by simp
    rw [readAfterInteger_of_plain _ _ _ hplain] at h
    refine ⟨[], ?_⟩
    rw [readAfterInteger_of_plain _ _ _ hnone]
    split at h
    · next hsurplus =>
      obtain ⟨rfl, rfl⟩ := Prod.mk.inj (Except.ok.inj h)
      exact ⟨rfl, if_pos hsurplus, hskip⟩
    · next hsurplus =>
      obtain ⟨x, rfl, hx⟩ := hreal h
      obtain ⟨rfl, hfinish⟩ := finishReal_ok hx
      refine ⟨rfl, ?_, hskip⟩
      rw [if_neg hsurplus, hfinish]
      rfl
  · cases text with
    | nil => exact absurd (by simp) hplain
    | cons b text =>
      have hb : b = 46 ∨ b = 101 ∨ b = 69 := by
        by_contra hne
        simp only [not_or] at hne
        refine hplain fun b' hb' => ?_
        obtain rfl := Option.some.inj hb'
        exact hne
      rcases hb with rfl | rfl | rfl
      · obtain ⟨x, rfl, hx⟩ := hreal h
        obtain ⟨own, rfl, hown, hskip⟩ := readFraction_cut hx
        refine ⟨46 :: own, rfl, ?_, hskip⟩
        change (readFraction negative sig surplus own).map _ = _
        rw [hown]
        rfl
      · obtain ⟨x, rfl, hx⟩ := hreal h
        obtain ⟨own, rfl, hown, hskip⟩ := readExponent_cut hx
        refine ⟨101 :: own, rfl, ?_, hskip⟩
        change (readExponent negative sig surplus own).map _ = _
        rw [hown]
        rfl
      · obtain ⟨x, rfl, hx⟩ := hreal h
        obtain ⟨own, rfl, hown, hskip⟩ := readExponent_cut hx
        refine ⟨69 :: own, rfl, ?_, hskip⟩
        change (readExponent negative sig surplus own).map _ = _
        rw [hown]
        rfl

private theorem readUnsigned_cut {n : Number} (h : readUnsigned negative text = .ok (n, left)) :
    ∃ own, text = own ++ left ∧ readUnsigned negative own = .ok (n, []) ∧
      skipUnsigned text = .ok left := by
  cases text with
  | nil => cases h
  | cons d text =>
    simp only [readUnsigned] at h
    split at h
    · next hzero =>
      subst hzero
      cases text with
      | nil =>
        obtain ⟨own, hnil, hown, -⟩ := readAfterInteger_cut h
        obtain ⟨rfl, rfl⟩ := List.append_eq_nil_iff.mp hnil.symm
        exact ⟨[48], rfl, hown, rfl⟩
      | cons e text =>
        simp only at h
        split at h
        · cases h
        · next he =>
          obtain ⟨own, htext, hown, hskip⟩ := readAfterInteger_cut h
          refine ⟨48 :: own, by rw [htext, List.cons_append], ?_, ?_⟩
          · cases own with
            | nil => exact hown
            | cons e' own =>
              obtain rfl := (List.cons.inj htext).1
              simp only [readUnsigned, if_pos, if_neg he]
              exact hown
          · simp only [skipUnsigned, if_pos, if_neg he]
            exact hskip
    · next hzero =>
      split at h
      · next hdigit =>
        obtain ⟨ds, behind, hspan, rfl, hds, hbehind⟩ := spanDigits_cut text
        rw [hspan] at h
        obtain ⟨own, rfl, hown, hskip⟩ := readAfterInteger_cut h
        refine ⟨d :: (ds ++ own), by simp, ?_, ?_⟩
        · simp only [readUnsigned, if_neg hzero, if_pos hdigit,
            spanDigits_of_digits hds (head_of_append hbehind)]
          exact hown
        · simp only [skipUnsigned, if_neg hzero, if_pos hdigit, hspan]
          exact hskip
      · cases h

/-- A number literal can be cut out behind its last byte, and is passed over up to there. -/
theorem readNumber_cut {n : Number} (h : readNumber text = .ok (n, left)) :
    ∃ own, text = own ++ left ∧ readNumber own = .ok (n, []) ∧ skipNumber text = .ok left := by
  cases text with
  | nil => cases h
  | cons b text =>
    by_cases hminus : b = 45
    · subst hminus
      obtain ⟨own, rfl, hown, hskip⟩ := readUnsigned_cut h
      exact ⟨45 :: own, rfl, hown, hskip⟩
    · have hsignless : ∀ more, b :: text ≠ 45 :: more := fun _ he => hminus (List.cons.inj he).1
      rw [readNumber.eq_2 _ hsignless] at h
      obtain ⟨own, htext, hown, hskip⟩ := readUnsigned_cut h
      refine ⟨own, htext, ?_, ?_⟩
      · rw [readNumber.eq_2 _ ?_, hown]
        rintro more rfl
        exact hsignless _ htext
      · rw [skipNumber.eq_2 _ hsignless]
        exact hskip

end Numbers

/-! ### Digits -/

section Digits

variable {text left : Bytes} {negative : Bool} {sig : Nat} {n : Whole}

/-- Only without a fraction, an exponent and surplus digits is a number whole. -/
private theorem readAfterInteger_whole {surplus : Nat}
    (h : readAfterInteger negative sig surplus text = .ok (.whole n, left)) :
    surplus = 0 ∧ left = text ∧ wholeNumber negative sig = .whole n := by
  have hreal : ∀ (r : Except Fault (Float × Bytes)),
      r.map (fun p => (Number.real p.1, p.2)) ≠ .ok (.whole n, left) := by
    intro r
    cases r <;> intro he <;> cases he
  unfold readAfterInteger at h
  split at h
  · exact absurd h (hreal _)
  · exact absurd h (hreal _)
  · exact absurd h (hreal _)
  · split at h
    · next hsurplus =>
      obtain ⟨hwhole, rfl⟩ := Prod.mk.inj (Except.ok.inj h)
      exact ⟨hsurplus, rfl, hwhole⟩
    · exact absurd h (hreal _)

private theorem valueFrom_of_absorb {bound e : Nat} {ds : Bytes}
    (h : absorb bound sig ds = (e, [])) : valueFrom sig ds = e := by
  induction ds generalizing sig with
  | nil => exact (Prod.mk.inj h).1
  | cons d ds ih =>
    rw [absorb] at h
    split at h
    · exact ih h
    · cases (Prod.mk.inj h).2

private theorem readUnsigned_whole (h : readUnsigned negative text = .ok (.whole n, left)) :
    ∃ d ds, text = d :: (ds ++ left) ∧ (∀ b ∈ d :: ds, isDigit b = true) ∧ (d = 48 → ds = []) ∧
      wholeNumber negative (valueFrom (digitValue d) ds) = .whole n := by
  cases text with
  | nil => cases h
  | cons d text =>
    simp only [readUnsigned] at h
    split at h
    · next hzero =>
      subst hzero
      have hafter : readAfterInteger negative 0 0 text = .ok (.whole n, left) := by
        cases text with
        | nil => exact h
        | cons e text =>
          simp only at h
          split at h
          · cases h
          · exact h
      obtain ⟨-, rfl, hwhole⟩ := readAfterInteger_whole hafter
      exact ⟨48, [], rfl, by simp [isDigit], fun _ => rfl, hwhole⟩
    · next hzero =>
      split at h
      · next hdigit =>
        obtain ⟨ds, behind, hspan, rfl, hds, -⟩ := spanDigits_cut text
        rw [hspan] at h
        cases habsorb : absorb maxSignificand (digitValue d) ds with
        | mk e surplus =>
          simp only [habsorb] at h
          obtain ⟨hsurplus, rfl, hwhole⟩ := readAfterInteger_whole h
          obtain rfl := List.length_eq_zero_iff.mp hsurplus
          refine ⟨d, ds, rfl, ?_, fun he => absurd he hzero, ?_⟩
          · intro b hb
            rcases List.mem_cons.mp hb with rfl | hb
            · exact hdigit
            · exact hds b hb
          · rw [valueFrom_of_absorb habsorb]
            exact hwhole
      · cases h

private theorem utf8EncodeChar_digitChar {d : UInt8} (h : isDigit d = true) :
    digitValue d < 10 ∧ String.utf8EncodeChar (digitValue d).digitChar = [d] := by
  have hall : ∀ k : Fin 10, String.utf8EncodeChar k.val.digitChar = [UInt8.ofNat (k.val + 48)] := by
    decide +kernel
  simp only [isDigit, Bool.and_eq_true, decide_eq_true_eq, UInt8.le_iff_toNat_le] at h
  have hrange : digitValue d < 10 ∧ digitValue d + 48 = d.toNat := by
    have hlow : 48 ≤ d.toNat := h.1
    have hhigh : d.toNat ≤ 57 := h.2
    simp only [digitValue]
    omega
  refine ⟨hrange.1, ?_⟩
  rw [hall ⟨digitValue d, hrange.1⟩]
  simp only [hrange.2, UInt8.ofNat_toNat]

/-- Digits behind those of a number are the last digits of another. -/
private theorem toDigits_valueFrom {ds : Bytes} (hds : ∀ d ∈ ds, isDigit d = true) {n : Nat}
    (hn : 0 < n) : (Nat.toDigits 10 (valueFrom n ds)).flatMap String.utf8EncodeChar =
      (Nat.toDigits 10 n).flatMap String.utf8EncodeChar ++ ds := by
  induction ds generalizing n with
  | nil => simp [valueFrom]
  | cons d ds ih =>
    obtain ⟨hlt, hchar⟩ := utf8EncodeChar_digitChar (hds d List.mem_cons_self)
    have hstep : Nat.toDigits 10 (n * 10 + digitValue d) =
        Nat.toDigits 10 n ++ [(digitValue d).digitChar] := by
      rw [Nat.toDigits_eq_if (by omega), if_neg (by omega)]
      have hdiv : (n * 10 + digitValue d) / 10 = n := by omega
      have hmod : (n * 10 + digitValue d) % 10 = digitValue d := by omega
      rw [hdiv, hmod]
    change (Nat.toDigits 10 (valueFrom (n * 10 + digitValue d) ds)).flatMap _ = _
    rw [ih (fun d' hd' => hds d' (List.mem_cons_of_mem _ hd')) (by omega), hstep,
      List.flatMap_append, List.flatMap_singleton, hchar, List.append_assoc]
    rfl

private theorem val_of_ofInt? {i : Int} (h : Whole.ofInt? i = some n) : n.val = i := by
  unfold Whole.ofInt? at h
  split at h
  · exact congrArg Whole.val (Option.some.inj h).symm
  · cases h

private theorem val_of_wholeNumber (h : wholeNumber negative sig = .whole n) (hn : 0 ≤ n.val) :
    negative = false ∧ n.val = sig := by
  unfold wholeNumber at h
  split at h
  · split at h
    · cases h
    · next hpos =>
      split at h
      · next m hm =>
        obtain rfl := Number.whole.inj h
        have hval := val_of_ofInt? hm
        omega
      · cases h
  · next hnegative =>
    split at h
    · next m hm =>
      obtain rfl := Number.whole.inj h
      exact ⟨eq_false_of_ne_true hnegative, val_of_ofInt? hm⟩
    · cases h

/-- A whole number that is not negative stands in its digits. -/
theorem eq_digits_of_readNumber (h : readNumber text = .ok (.whole n, left)) (hn : 0 ≤ n.val) :
    text = utf8 (toString n.val) ++ left := by
  have hsignless : readNumber text = readUnsigned false text := by
    apply readNumber.eq_2
    rintro more rfl
    obtain ⟨d, ds, -, -, -, hwhole⟩ := readUnsigned_whole h
    exact absurd (val_of_wholeNumber hwhole hn).1 (by decide)
  rw [hsignless] at h
  obtain ⟨d, ds, rfl, hdigits, hzero, hwhole⟩ := readUnsigned_whole h
  obtain ⟨hlt, hchar⟩ := utf8EncodeChar_digitChar (hdigits d List.mem_cons_self)
  have hown : (Nat.toDigits 10 (valueFrom (digitValue d) ds)).flatMap String.utf8EncodeChar =
      d :: ds := by
    have hfirst : (Nat.toDigits 10 (digitValue d)).flatMap String.utf8EncodeChar = [d] := by
      rw [Nat.toDigits_eq_if (by omega), if_pos hlt, List.flatMap_singleton, hchar]
    by_cases hd : d = 48
    · obtain rfl := hzero hd
      exact hfirst
    · have hpos : 0 < digitValue d := by
        rcases Nat.eq_zero_or_pos (digitValue d) with hnull | hpos
        · have hnil : String.utf8EncodeChar (Nat.digitChar 0) = [48] := by decide +kernel
          rw [hnull, hnil] at hchar
          exact absurd (List.cons.inj hchar).1.symm hd
        · exact hpos
      rw [toDigits_valueFrom (fun d' hd' => hdigits d' (List.mem_cons_of_mem _ hd')) hpos, hfirst]
      rfl
  rw [(val_of_wholeNumber hwhole hn).2]
  change _ = utf8 (String.ofList (Nat.toDigits 10 (valueFrom (digitValue d) ds))) ++ left
  rw [utf8_ofList, hown, List.cons_append]

end Digits

end Roaming.Json
