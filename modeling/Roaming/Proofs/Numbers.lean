import Mathlib.Data.List.TakeDrop
import Mathlib.Data.List.TakeWhile
import Roaming.Json.Printer
import Roaming.Json.NumberLiteral
import Roaming.Proofs.Texts

/-!
# Numbers are read back

The reader of number literals looks one byte beyond a literal at most, so that what follows does not
matter as long as it cannot go on with the literal. Whole numbers are read back from their digits;
whether a float is depends on the digits that it is printed with (`ReadsBack`).
-/

set_option autoImplicit false
set_option relaxedAutoImplicit false

namespace Roaming.Json

open Roaming.Text

/-- Whether these bytes cannot go on with a number literal. -/
def EndsNumber (rest : Bytes) : Prop :=
  ∀ b ∈ rest.head?, isDigit b = false ∧ b ≠ 46 ∧ b ≠ 101 ∧ b ≠ 69

/-- Whether the printed form of a float is read back as this float. One that is not finite is
printed as `null`, which is no number. -/
def ReadsBack (x : Float) : Prop :=
  readNumber (utf8 (printReal x)) = .ok (.real x, [])

theorem endsNumber_nil : EndsNumber [] := by
  simp [EndsNumber]

theorem endsNumber_cons {b : UInt8} (rest : Bytes)
    (h : isDigit b = false ∧ b ≠ 46 ∧ b ≠ 101 ∧ b ≠ 69) : EndsNumber (b :: rest) := by
  intro b' hb'
  obtain rfl := Option.some.inj hb'
  exact h

/-! ### What follows a literal -/

section Locality

variable {text rest left : Bytes} {negative : Bool} {sig : Nat} {exp : Int}

private theorem spanDigits_append (text : Bytes) (hr : EndsNumber rest) :
    spanDigits (text ++ rest) = ((spanDigits text).1, (spanDigits text).2 ++ rest) := by
  have hstop : rest.span isDigit = ([], rest) := by
    cases rest with
    | nil => rfl
    | cons b rest =>
      have hb := (hr b rfl).1
      simp [List.span_eq_takeWhile_dropWhile, hb]
  simp only [spanDigits, List.span_eq_takeWhile_dropWhile, Prod.mk.injEq] at hstop ⊢
  induction text with
  | nil => exact hstop
  | cons b text ih =>
    by_cases hb : isDigit b = true
    · simp only [List.cons_append, List.takeWhile_cons, List.dropWhile_cons, hb, if_true]
      exact ⟨congrArg (b :: ·) ih.1, ih.2⟩
    · simp [hb]

private theorem finishReal_append {x : Float} (h : finishReal negative sig exp text = .ok (x, left))
    (rest : Bytes) : finishReal negative sig exp (text ++ rest) = .ok (x, left ++ rest) := by
  unfold finishReal at h ⊢
  split at h
  · obtain ⟨rfl, rfl⟩ := Prod.mk.inj (Except.ok.inj h)
    rfl
  · cases h

private theorem exponentSign_append (hne : text ≠ []) (rest : Bytes) :
    exponentSign (text ++ rest) = ((exponentSign text).1, (exponentSign text).2 ++ rest) := by
  obtain ⟨b, text, rfl⟩ := List.exists_cons_of_ne_nil hne
  by_cases hplus : b = 43
  · subst hplus; rfl
  by_cases hminus : b = 45
  · subst hminus; rfl
  have hnone : ∀ more : Bytes, exponentSign (b :: more) = (false, b :: more) := by
    intro more
    apply exponentSign.eq_3
    · exact fun _ h => hplus (List.cons.inj h).1
    · exact fun _ h => hminus (List.cons.inj h).1
  rw [List.cons_append, hnone, hnone]
  rfl

private theorem readExponent_append {x : Float}
    (h : readExponent negative sig exp text = .ok (x, left)) (hr : EndsNumber rest) :
    readExponent negative sig exp (text ++ rest) = .ok (x, left ++ rest) := by
  have hne : text ≠ [] := by
    rintro rfl
    cases h
  unfold readExponent at h ⊢
  rw [exponentSign_append hne]
  generalize exponentSign text = sign at h ⊢
  obtain ⟨down, signless⟩ := sign
  cases signless with
  | nil => cases h
  | cons d signless =>
    simp only [List.cons_append] at h ⊢
    by_cases hd : isDigit d = true
    · rw [if_pos hd] at h ⊢
      rw [spanDigits_append _ hr]
      generalize spanDigits signless = parts at h ⊢
      obtain ⟨ds, behind⟩ := parts
      simp only at h ⊢
      split at h
      · exact finishReal_append h rest
      · split at h
        · cases h
        · next hsig =>
          rw [if_neg hsig]
          obtain ⟨rfl, rfl⟩ := Prod.mk.inj (Except.ok.inj h)
          rfl
    · rw [if_neg hd] at h
      cases h

private theorem readExponentPart_append {x : Float}
    (h : readExponentPart negative sig exp text = .ok (x, left)) (hr : EndsNumber rest) :
    readExponentPart negative sig exp (text ++ rest) = .ok (x, left ++ rest) := by
  cases text with
  | nil =>
    have hfinish := finishReal_append h rest
    cases rest with
    | nil => exact hfinish
    | cons b rest =>
      have hb : ¬ (b = 101 ∨ b = 69) := by
        have := hr b rfl
        simp [this.2.2]
      rw [List.nil_append, readExponentPart, if_neg hb]
      exact hfinish
  | cons b text =>
    rw [List.cons_append]
    simp only [readExponentPart] at h ⊢
    by_cases hb : b = 101 ∨ b = 69
    · rw [if_pos hb] at h ⊢
      exact readExponent_append h hr
    · rw [if_neg hb] at h ⊢
      exact finishReal_append h rest

private theorem readFraction_append {x : Float}
    (h : readFraction negative sig exp text = .ok (x, left)) (hr : EndsNumber rest) :
    readFraction negative sig exp (text ++ rest) = .ok (x, left ++ rest) := by
  unfold readFraction at h ⊢
  rw [spanDigits_append _ hr]
  generalize spanDigits text = parts at h ⊢
  obtain ⟨ds, behind⟩ := parts
  cases ds with
  | nil => cases behind <;> cases h
  | cons d ds => exact readExponentPart_append h hr

/-- Without a point or an exponent behind its digits, a number is whole or too large. -/
theorem readAfterInteger_of_plain (negative : Bool) (sig surplus : Nat)
    (h : ∀ b ∈ text.head?, b ≠ 46 ∧ b ≠ 101 ∧ b ≠ 69) :
    readAfterInteger negative sig surplus text =
      if surplus = 0 then .ok (wholeNumber negative sig, text)
      else (finishReal negative sig surplus text).map fun p => (.real p.1, p.2) := by
  apply readAfterInteger.eq_4
  · exact fun _ he => (h 46 (by rw [he]; rfl)).1 rfl
  · exact fun _ he => (h 101 (by rw [he]; rfl)).2.1 rfl
  · exact fun _ he => (h 69 (by rw [he]; rfl)).2.2 rfl

private theorem real_append {x : Except Fault (Float × Bytes)} {y : Except Fault (Float × Bytes)}
    {n : Number} (h : x.map (fun p => (Number.real p.1, p.2)) = .ok (n, left))
    (hxy : ∀ f, x = .ok (f, left) → y = .ok (f, left ++ rest)) :
    y.map (fun p => (Number.real p.1, p.2)) = .ok (n, left ++ rest) := by
  cases x with
  | error e => cases h
  | ok p =>
    obtain ⟨rfl, rfl⟩ := Prod.mk.inj (Except.ok.inj h)
    rw [hxy p.1 rfl]
    rfl

private theorem readAfterInteger_append_plain {surplus : Nat} {n : Number}
    (h : readAfterInteger negative sig surplus text = .ok (n, left))
    (ht : ∀ b ∈ text.head?, b ≠ 46 ∧ b ≠ 101 ∧ b ≠ 69) (hr : EndsNumber rest) :
    readAfterInteger negative sig surplus (text ++ rest) = .ok (n, left ++ rest) := by
  have htr : ∀ b ∈ (text ++ rest).head?, b ≠ 46 ∧ b ≠ 101 ∧ b ≠ 69 := by
    cases text with
    | nil => exact fun b hb => (hr b hb).2
    | cons b text => exact ht
  rw [readAfterInteger_of_plain _ _ _ ht] at h
  rw [readAfterInteger_of_plain _ _ _ htr]
  by_cases hsurplus : surplus = 0
  · rw [if_pos hsurplus] at h ⊢
    obtain ⟨rfl, rfl⟩ := Prod.mk.inj (Except.ok.inj h)
    rfl
  · rw [if_neg hsurplus] at h ⊢
    exact real_append h fun f hf => finishReal_append hf rest

private theorem readAfterInteger_append {surplus : Nat} {n : Number}
    (h : readAfterInteger negative sig surplus text = .ok (n, left)) (hr : EndsNumber rest) :
    readAfterInteger negative sig surplus (text ++ rest) = .ok (n, left ++ rest) := by
  cases text with
  | nil => exact readAfterInteger_append_plain h (by simp) hr
  | cons b text =>
    by_cases hpoint : b = 46
    · subst hpoint
      exact real_append h fun f hf => readFraction_append hf hr
    by_cases hlower : b = 101
    · subst hlower
      exact real_append h fun f hf => readExponent_append hf hr
    by_cases hupper : b = 69
    · subst hupper
      exact real_append h fun f hf => readExponent_append hf hr
    · refine readAfterInteger_append_plain h ?_ hr
      intro b' hb'
      obtain rfl := Option.some.inj hb'
      exact ⟨hpoint, hlower, hupper⟩

private theorem readUnsigned_append {n : Number} (h : readUnsigned negative text = .ok (n, left))
    (hr : EndsNumber rest) : readUnsigned negative (text ++ rest) = .ok (n, left ++ rest) := by
  cases text with
  | nil => cases h
  | cons d text =>
    rw [List.cons_append]
    simp only [readUnsigned] at h ⊢
    by_cases hzero : d = 48
    · rw [if_pos hzero] at h ⊢
      cases text with
      | nil =>
        have hafter := readAfterInteger_append h hr
        cases rest with
        | nil => exact hafter
        | cons e rest =>
          have he := (hr e rfl).1
          simp only [List.nil_append, he, Bool.false_eq_true, if_false] at hafter ⊢
          exact hafter
      | cons e text =>
        simp only [List.cons_append] at h ⊢
        split at h
        · cases h
        · next he =>
          rw [if_neg he]
          exact readAfterInteger_append h hr
    · rw [if_neg hzero] at h ⊢
      split at h
      · next hd =>
        rw [if_pos hd, spanDigits_append _ hr]
        exact readAfterInteger_append h hr
      · cases h

/-- What follows a number literal does not matter to its reader if it cannot go on with it. -/
theorem readNumber_append {n : Number} (h : readNumber text = .ok (n, left))
    (hr : EndsNumber rest) : readNumber (text ++ rest) = .ok (n, left ++ rest) := by
  cases text with
  | nil => cases h
  | cons b text =>
    by_cases hminus : b = 45
    · subst hminus
      exact readUnsigned_append h hr
    · have hmore : ∀ more : Bytes, readNumber (b :: more) = readUnsigned false (b :: more) := by
        intro more
        apply readNumber.eq_2
        exact fun _ he => hminus (List.cons.inj he).1
      rw [hmore] at h
      rw [List.cons_append, hmore]
      exact readUnsigned_append h hr

/-- A number literal starts with a minus sign or a digit. -/
theorem startsNumber_of_readNumber {n : Number} (h : readNumber text = .ok (n, left)) :
    ∃ b more, text = b :: more ∧ startsNumber b = true := by
  cases text with
  | nil => cases h
  | cons b text =>
    refine ⟨b, text, rfl, ?_⟩
    by_cases hminus : b = 45
    · subst hminus
      rfl
    · have hunsigned : readNumber (b :: text) = readUnsigned false (b :: text) := by
        apply readNumber.eq_2
        exact fun _ he => hminus (List.cons.inj he).1
      rw [hunsigned] at h
      simp only [readUnsigned] at h
      split at h
      · next hzero => rw [hzero]; rfl
      · split at h
        · next hd => simp [startsNumber, hd]
        · cases h

end Locality

/-! ### Whole numbers -/

/-- The number that digits stand for behind those of `n`. -/
def valueFrom (n : Nat) (digits : Bytes) : Nat :=
  digits.foldl (fun n d => n * 10 + digitValue d) n

private theorem le_valueFrom (digits : Bytes) (n : Nat) : n ≤ valueFrom n digits := by
  induction digits generalizing n with
  | nil => exact Nat.le_refl n
  | cons d digits ih =>
    have hstep : n ≤ n * 10 + digitValue d := by omega
    exact Nat.le_trans hstep (ih _)

/-- No digit of a number within the bound is left over. -/
private theorem absorb_of_le {bound : Nat} (digits : Bytes) (n : Nat)
    (h : valueFrom n digits ≤ bound) : absorb bound n digits = (valueFrom n digits, []) := by
  induction digits generalizing n with
  | nil => rfl
  | cons d digits ih =>
    have hfirst : n * 10 + digitValue d ≤ bound := Nat.le_trans (le_valueFrom digits _) h
    rw [absorb, if_pos hfirst]
    exact ih _ h

private theorem utf8EncodeChar_digit {c : Char} (h : c.isDigit = true) :
    ∃ d, String.utf8EncodeChar c = [d] ∧ isDigit d = true ∧ d.toNat = c.toNat := by
  have hv : c.val.toNat = c.toNat := rfl
  have hrange : 48 ≤ c.toNat ∧ c.toNat ≤ 57 := by
    simp only [Char.isDigit, Bool.and_eq_true, decide_eq_true_eq] at h
    exact ⟨UInt32.le_iff_toNat_le.mp h.1, UInt32.le_iff_toNat_le.mp h.2⟩
  have hval : (UInt8.ofNat c.toNat).toNat = c.toNat := by simp only [UInt8.toNat_ofNat']; omega
  refine ⟨UInt8.ofNat c.toNat, ?_, ?_, ?_⟩
  · rw [String.utf8EncodeChar, hv, if_pos (by omega)]
  · simp only [isDigit, Bool.and_eq_true, decide_eq_true_eq, UInt8.le_iff_toNat_le, hval]
    exact hrange
  · exact hval

private theorem digits_utf8 {cs : List Char} (h : ∀ c ∈ cs, c.isDigit = true) :
    ∀ d ∈ cs.flatMap String.utf8EncodeChar, isDigit d = true := by
  intro d hd
  obtain ⟨c, hc, hdc⟩ := List.mem_flatMap.mp hd
  obtain ⟨d', hd', hdigit, -⟩ := utf8EncodeChar_digit (h c hc)
  rw [hd'] at hdc
  obtain rfl := List.mem_singleton.mp hdc
  exact hdigit

private theorem valueFrom_utf8 {cs : List Char} (h : ∀ c ∈ cs, c.isDigit = true) (n : Nat) :
    valueFrom n (cs.flatMap String.utf8EncodeChar) = Nat.ofDigitChars 10 cs n := by
  induction cs generalizing n with
  | nil => rfl
  | cons c cs ih =>
    obtain ⟨d, hd, -, hvalue⟩ := utf8EncodeChar_digit (h c List.mem_cons_self)
    rw [List.flatMap_cons, hd, Nat.ofDigitChars_cons,
      ← ih fun c' hc' => h c' (List.mem_cons_of_mem _ hc'), ← hvalue, Nat.mul_comm]
    rfl

/-- The digits of a number other than zero do not start with a zero. -/
private theorem head_toDigits {n : Nat} (hn : n ≠ 0) : (Nat.toDigits 10 n).head? ≠ some '0' := by
  induction n using Nat.strongRecOn with
  | ind n ih =>
    rw [Nat.toDigits_eq_if (by omega)]
    by_cases hlt : n < 10
    · rw [if_pos hlt]
      have hall : ∀ k : Fin 10, k.val ≠ 0 → [k.val.digitChar].head? ≠ some '0' := by decide
      exact hall ⟨n, hlt⟩ hn
    · have hlead := ih (n / 10) (by omega) (by omega)
      obtain ⟨c, cs, hcs⟩ :=
        List.exists_cons_of_ne_nil (Nat.toDigits_ne_nil (n := n / 10) (b := 10))
      rw [hcs] at hlead
      rw [if_neg hlt, hcs]
      exact hlead

/-- The digits of a number are read up to where they end. -/
private theorem readUnsigned_digits (negative : Bool) {n : Nat} (hn : n ≤ maxSignificand) :
    readUnsigned negative ((Nat.toDigits 10 n).flatMap String.utf8EncodeChar) =
      .ok (wholeNumber negative n, []) := by
  by_cases hzero : n = 0
  · subst hzero
    cases negative <;> rfl
  · have hall : ∀ c ∈ Nat.toDigits 10 n, c.isDigit = true := fun c hc =>
      Nat.isDigit_of_mem_toDigits (by omega) (by omega) hc
    have hvalue := valueFrom_utf8 hall 0
    rw [Nat.ofDigitChars_ten_toDigits] at hvalue
    have hhead := head_toDigits hzero
    obtain ⟨c, cs, hcs⟩ := List.exists_cons_of_ne_nil (Nat.toDigits_ne_nil (n := n) (b := 10))
    rw [hcs] at hall hvalue hhead ⊢
    obtain ⟨d, hd, hdigit, hdvalue⟩ := utf8EncodeChar_digit (hall c List.mem_cons_self)
    have hrest := digits_utf8 fun c' hc' => hall c' (List.mem_cons_of_mem _ hc')
    rw [List.flatMap_cons, hd] at hvalue ⊢
    generalize cs.flatMap String.utf8EncodeChar = ds at hvalue hrest ⊢
    have hfirst : d ≠ 48 := by
      rintro rfl
      have hc : c = '0' := Char.toNat_inj.mp hdvalue.symm
      exact hhead (congrArg some hc)
    have hspan : spanDigits ds = (ds, []) := by
      have htake : ds.takeWhile isDigit = ds := List.takeWhile_eq_self_iff.mpr hrest
      have hdrop : ds.dropWhile isDigit = [] := List.dropWhile_eq_nil_iff.mpr hrest
      rw [spanDigits, List.span_eq_takeWhile_dropWhile, htake, hdrop]
    have hsum : valueFrom (digitValue d) ds = n := by
      rw [← hvalue]
      simp [valueFrom]
    simp only [List.singleton_append, readUnsigned, if_neg hfirst, if_pos hdigit, hspan,
      absorb_of_le ds (digitValue d) (hsum ▸ hn), hsum]
    rfl

private theorem readNumber_of_readUnsigned {text left : Bytes} {n : Number}
    (h : readUnsigned false text = .ok (n, left)) : readNumber text = .ok (n, left) := by
  rw [← h]
  apply readNumber.eq_2
  rintro rest rfl
  cases h

private theorem Whole.ofInt?_val (n : Whole) : Whole.ofInt? n.val = some n :=
  dif_pos ⟨n.low, n.high⟩

/-- A whole number is read back. -/
theorem readNumber_whole (n : Whole) :
    readNumber (utf8 (toString n.val)) = .ok (.whole n, []) := by
  have hsame := n.ofInt?_val
  have hlow := n.low
  have hhigh := n.high
  cases hval : n.val with
  | ofNat k =>
    rw [hval, Int.ofNat_eq_natCast] at hsame hhigh
    have hk : k ≤ maxSignificand := Int.ofNat_le.mp hhigh
    have hread := readUnsigned_digits false hk
    rw [wholeNumber, if_neg Bool.false_ne_true, hsame] at hread
    change readNumber (utf8 (String.ofList (Nat.toDigits 10 k))) = _
    rw [utf8_ofList]
    exact readNumber_of_readUnsigned hread
  | negSucc k =>
    rw [hval] at hsame hlow
    have hk : k + 1 ≤ maxSignificand := by
      have hbound : k + 1 ≤ 9223372036854775808 := by omega
      exact Nat.le_trans hbound (by decide)
    have hread := readUnsigned_digits true hk
    have hneg : -((k + 1 : Nat) : Int) = Int.negSucc k := rfl
    rw [wholeNumber, if_pos rfl, if_neg (Nat.succ_ne_zero k), hneg, hsame] at hread
    have hsign : utf8 "-" = [45] := by decide +kernel
    change readNumber (utf8 ("-" ++ String.ofList (Nat.toDigits 10 (k + 1)))) = _
    rw [utf8_append, hsign, utf8_ofList]
    exact hread

end Roaming.Json
