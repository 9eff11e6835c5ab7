import Roaming.Message.Field
import Roaming.Proofs.Values

/-!
# Contents of fields are read back

A content is written as a value (`Kind.value?`) or left out. A content that survives is read back
from the value, and from the value's text; what is left out is what an absent field holds.
-/

set_option autoImplicit false
set_option relaxedAutoImplicit false

namespace Roaming

open Roaming.Text (Bytes utf8)
open Roaming.Json

/-- The whole number of a count. -/
def Json.Whole.ofCount (n : UInt32) : Whole where
  val := n.toNat
  low := by omega
  high := by have := n.toNat_lt; omega

theorem Tag.ofName?_name (t : Tag) : Tag.ofName? t.name = some t := by
  obtain ⟨operation, direction⟩ := t
  cases operation <;> cases direction <;> decide +kernel

/-- Whether the text of a code leads back to the code: an unknown one is not called
like a known one. -/
def ResultCode.Survives (c : ResultCode) : Prop :=
  ∀ s, c = .other s → s ∉ known.map text

theorem ResultCode.ofText_text {c : ResultCode} (h : c.Survives) : ofText c.text = c := by
  cases c with
  | other s =>
    have hnone : known.find? (fun c => c.text == s) = none := by
      rw [List.find?_eq_none]
      intro c hc heq
      exact h s rfl (List.mem_map.mpr ⟨c, hc, beq_iff_eq.mp heq⟩)
    rw [ofText, text, hnone]
    rfl
  | _ => decide +kernel

/-- What is refused is not read. -/
theorem refuse_ne_ok {α : Type} (wanted : Wanted) (text : Bytes) (v : α) :
    refuse wanted text ≠ .ok v := by
  have hthrow : ∀ {β : Type} (x : Except Fault β) (f : β → Fault),
      (x >>= fun b => throw (f b)) ≠ .ok v := by
    intro β x f
    cases x <;> exact nofun
  unfold refuse
  split
  · exact nofun
  · split_ifs
    · exact hthrow _ _
    · exact hthrow _ _
    · exact hthrow _ _
    · exact hthrow (readNumber _) fun p => .here (.wrongType p.1.found wanted) p.2
    · exact hthrow (readText _) fun p => .here (.wrongType (.text p.1) wanted) p.2
    · exact nofun
    · exact nofun
    · exact nofun

namespace Kind

/-- The value that a content is written as, `none` when it is left out. -/
def value? : (k : Kind) → k.Slot → Option Value
  | .label, s => if s.isEmpty then none else some (.text s)
  | .transaction, n => some (.whole (.ofCount n))
  | .tag, t => t.map fun t => .text t.name
  | .code, c => some (.text c.text)
  | .text, s => s.map .text
  | .count, n => n.map fun n => .whole (.ofCount n)
  | .frequency, x => x.map .real
  | .value, v => v

/-- Whether a content is read back as it was written: a code is not one of the known by another
constructor, floats are read back from their printed form, and a value of the peer's is not `null`,
has its members in the order in which they are kept, and nests at most 126 lists and objects. -/
def Survives : (k : Kind) → k.Slot → Prop
  | .code, c => c.Survives
  | .frequency, x => ∀ y ∈ x, ReadsBack y
  | .value, v => ∀ w ∈ v, w ≠ .null ∧ w.sorted = w ∧ w.depth ≤ 126 ∧ ∀ x ∈ w.reals, ReadsBack x
  | _, _ => True

theorem print?_eq (k : Kind) (s : k.Slot) : k.print? s = (k.value? s).map Value.print := by
  cases k with
  | label =>
    by_cases h : s.isEmpty = true
    · simp [print?, value?, h]
    · simp [print?, value?, h, Value.print]
  | transaction => rfl
  | code => rfl
  | tag | text | count | frequency | value => cases s <;> rfl

/-- A content that is left out is that of an absent field. -/
theorem absent?_of_value? {k : Kind} {s : k.Slot} (h : k.value? s = none) : k.absent? = some s := by
  cases k with
  | label =>
    by_cases hs : s.isEmpty = true
    · rw [String.isEmpty_iff.mp hs]
      rfl
    · simp [value?, hs] at h
  | transaction => cases h
  | code => cases h
  | tag | text | count | frequency | value =>
    cases s with
    | none => rfl
    | some t => cases h

theorem countOfNumber_ofCount (n : UInt32) : countOfNumber (.whole (.ofCount n)) = .ok n := by
  have hlt := n.toNat_lt
  have hrange : 0 ≤ (Whole.ofCount n).val ∧ (Whole.ofCount n).val ≤ maxCount := by
    simp only [Whole.ofCount, maxCount]
    omega
  rw [countOfNumber, if_pos hrange]
  simp [Whole.ofCount]

theorem tagOfName_name (t : Tag) : tagOfName t.name = .ok t := by
  rw [tagOfName, t.ofName?_name]

/-- Only a value of the peer's is written with lists or objects. -/
theorem depth_value? {k : Kind} {s : k.Slot} {v : Value} (hk : k ≠ .value)
    (h : k.value? s = some v) : v.depth = 0 := by
  cases k with
  | label =>
    by_cases hempty : s.isEmpty = true
    · simp [value?, hempty] at h
    · simp only [value?, if_neg hempty] at h
      obtain rfl := Option.some.inj h
      rfl
  | transaction | code =>
    obtain rfl := Option.some.inj h
    rfl
  | tag | text | count | frequency =>
    obtain ⟨t, rfl, rfl⟩ := Option.map_eq_some_iff.mp h
    rfl
  | value => exact absurd rfl hk

/-- Only frequencies and values of the peer's are written with floats. -/
theorem reals_value? {k : Kind} {s : k.Slot} {v : Value} (hs : k.Survives s)
    (h : k.value? s = some v) : ∀ x ∈ v.reals, ReadsBack x := by
  have hnone : ∀ x ∈ ([] : List Float), ReadsBack x := by simp
  cases k with
  | label =>
    by_cases hempty : s.isEmpty = true
    · simp [value?, hempty] at h
    · simp only [value?, if_neg hempty] at h
      obtain rfl := Option.some.inj h
      exact hnone
  | transaction | code =>
    obtain rfl := Option.some.inj h
    exact hnone
  | tag | text | count =>
    obtain ⟨t, rfl, rfl⟩ := Option.map_eq_some_iff.mp h
    exact hnone
  | frequency =>
    obtain ⟨x, rfl, rfl⟩ := Option.map_eq_some_iff.mp h
    simpa [Value.reals] using hs x rfl
  | value =>
    obtain rfl : s = some v := h
    exact (hs v rfl).2.2.2

/-! ### From a value -/

theorem optionalOfValue_of_ne {α : Type} (convert : Value → Except Cause α) {v : Value}
    (h : v ≠ .null) : optionalOfValue convert v = (convert v).map some := by
  cases v with
  | null => exact absurd rfl h
  | _ => rfl

theorem eq_some_of_optionalOfValue {α : Type} {convert : Value → Except Cause α} {v : Value}
    {x : Option α} (h : optionalOfValue convert v = .ok x) :
    v = .null ∧ x = none ∨ v ≠ .null ∧ ∃ a, convert v = .ok a ∧ x = some a := by
  by_cases hnull : v = .null
  · subst hnull
    exact .inl ⟨rfl, (Except.ok.inj h).symm⟩
  · rw [optionalOfValue_of_ne convert hnull] at h
    cases hv : convert v with
    | error c =>
      rw [hv] at h
      cases h
    | ok a =>
      rw [hv] at h
      exact .inr ⟨hnull, a, rfl, (Except.ok.inj h).symm⟩

/-- A content is read back from the value that it is written as. -/
theorem ofValue_value? {k : Kind} {s : k.Slot} {v : Value} (h : k.value? s = some v)
    (hs : k.Survives s) : k.ofValue v = .ok s := by
  cases k with
  | label =>
    by_cases hempty : s.isEmpty = true
    · simp [value?, hempty] at h
    · simp only [value?, if_neg hempty] at h
      obtain rfl := Option.some.inj h
      rfl
  | transaction =>
    obtain rfl := Option.some.inj h
    exact countOfNumber_ofCount s
  | tag =>
    obtain ⟨t, rfl, rfl⟩ := Option.map_eq_some_iff.mp h
    change (tagOfName t.name).map some = _
    rw [tagOfName_name]
    rfl
  | code =>
    obtain rfl := Option.some.inj h
    exact congrArg Except.ok (ResultCode.ofText_text hs)
  | text =>
    obtain ⟨t, rfl, rfl⟩ := Option.map_eq_some_iff.mp h
    rfl
  | count =>
    obtain ⟨n, rfl, rfl⟩ := Option.map_eq_some_iff.mp h
    change (countOfNumber (.whole (.ofCount n))).map some = _
    rw [countOfNumber_ofCount]
    rfl
  | frequency =>
    obtain ⟨x, rfl, rfl⟩ := Option.map_eq_some_iff.mp h
    rfl
  | value =>
    obtain rfl : s = some v := h
    obtain ⟨hnull, hsorted, -⟩ := hs v rfl
    have hread := optionalOfValue_of_ne (fun w => .ok w.sorted) hnull
    rw [hsorted] at hread
    exact hread

/-! ### From a text -/

section Texts

variable {depth : Nat} {rest : Bytes}

private theorem readTextField_print (wanted : Wanted) (s : String) :
    readTextField wanted (utf8 (Value.text s).print ++ rest) = .ok (s, rest) := by
  rw [Value.print, utf8_printText, List.cons_append, List.append_assoc]
  exact readText_escaped s rest

private theorem readNumberField_print {α : Type} (wanted : Wanted)
    {convert : Number → Except Cause α} {text : Bytes} {n : Number} {a : α}
    (h : readNumber text = .ok (n, [])) (ha : convert n = .ok a) (hr : EndsNumber rest) :
    readNumberField wanted convert (text ++ rest) = .ok (a, rest) := by
  have hread := readNumber_append h hr
  have hskip := (startsValue_of_readNumber hread).skipBlanks
  obtain ⟨b, more, hcons, hb⟩ := startsNumber_of_readNumber hread
  rw [hcons] at hread hskip ⊢
  simp only [readNumberField, hskip, if_pos hb, hread, bind, Except.bind, ha]
  rfl

private theorem readCount_print (n : UInt32) (hr : EndsNumber rest) :
    readNumberField .count countOfNumber (utf8 (Value.whole (.ofCount n)).print ++ rest) =
      .ok (n, rest) := by
  rw [Value.print]
  exact readNumberField_print .count (readNumber_whole (.ofCount n)) (countOfNumber_ofCount n) hr

private theorem readOptional_print {α : Type} {read : Bytes → Except Fault (α × Bytes)} {v : Value}
    {a : α} (hv : v ≠ .null) (hx : ∀ x ∈ v.reals, ReadsBack x)
    (h : read (utf8 v.print ++ rest) = .ok (a, rest)) :
    readOptional read (utf8 v.print ++ rest) = .ok (some a, rest) := by
  have hstart := startsValue_print v hx
  have hskip := (hstart.append rest).skipBlanks
  have hletter := print_ne_cons hv hx
  obtain ⟨b, more, hcons, -⟩ := hstart
  rw [hcons] at hskip h hletter ⊢
  rw [readOptional, hskip]
  split
  · next he => exact absurd (congrArg (· :: more) (List.cons.inj he).1) (hletter more)
  · rw [h]
    rfl

/-- A content is read back from the text of the value that it is written as. -/
theorem read_value? {k : Kind} {s : k.Slot} {v : Value} (h : k.value? s = some v)
    (hs : k.Survives s) (hd : v.depth < depth) (hr : EndsNumber rest) :
    k.read depth (utf8 v.print ++ rest) = .ok (s, rest) := by
  have hnone : ∀ x ∈ ([] : List Float), ReadsBack x := by simp
  cases k with
  | label =>
    by_cases hempty : s.isEmpty = true
    · simp [value?, hempty] at h
    · simp only [value?, if_neg hempty] at h
      obtain rfl := Option.some.inj h
      rw [Kind.read]
      exact readTextField_print .text s
  | transaction =>
    obtain rfl := Option.some.inj h
    rw [Kind.read]
    exact readCount_print s hr
  | tag =>
    obtain ⟨t, rfl, rfl⟩ := Option.map_eq_some_iff.mp h
    rw [Kind.read]
    refine readOptional_print (by simp) hnone ?_
    rw [Value.print, utf8_printText, List.cons_append, List.append_assoc]
    change (readText (escaped t.name ++ 34 :: rest) >>= _) = _
    rw [readText_escaped]
    change orFault (tagOfName t.name) rest = _
    rw [tagOfName_name]
    rfl
  | code =>
    obtain rfl := Option.some.inj h
    simp only [Kind.read, readTextField_print]
    exact congrArg (fun c => Except.ok (c, rest)) (ResultCode.ofText_text hs)
  | text =>
    obtain ⟨t, rfl, rfl⟩ := Option.map_eq_some_iff.mp h
    rw [Kind.read]
    exact readOptional_print (by simp) hnone (readTextField_print .text t)
  | count =>
    obtain ⟨n, rfl, rfl⟩ := Option.map_eq_some_iff.mp h
    rw [Kind.read]
    exact readOptional_print (by simp) hnone (readCount_print n hr)
  | frequency =>
    obtain ⟨x, rfl, rfl⟩ := Option.map_eq_some_iff.mp h
    have hx := hs x rfl
    rw [Kind.read]
    exact readOptional_print (by simp) (by simpa [Value.reals] using hx)
      (readNumberField_print .frequency hx rfl hr)
  | value =>
    obtain rfl : s = some v := h
    obtain ⟨hnull, hsorted, -, hx⟩ := hs v rfl
    rw [Kind.read]
    refine readOptional_print hnull hx ?_
    rw [readValue_print v hr hd hx]
    exact congrArg (fun w => Except.ok (w, rest)) hsorted

end Texts

end Kind

end Roaming
