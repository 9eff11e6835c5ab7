import Roaming.Json.Reader
import Roaming.Proofs.Numbers

/-!
# Values are read back

The compact text of a value is read back as the value, with its members in the order and as often as
they were written, if it is not nested too deeply and its floats are read back.
-/

set_option autoImplicit false
set_option relaxedAutoImplicit false

namespace Roaming.Json

open Roaming.Text

namespace Value

mutual

/-- How many lists and objects stand around each other at most. -/
def depth : Value → Nat
  | .list items => depthAll items + 1
  | .object members => depthMembers members + 1
  | .null => 0
  | .bool _ => 0
  | .whole _ => 0
  | .real _ => 0
  | .text _ => 0

/-- The depth of the deepest item. -/
def depthAll : List Value → Nat
  | [] => 0
  | v :: rest => max v.depth (depthAll rest)

/-- The depth of the deepest member. -/
def depthMembers : List (String × Value) → Nat
  | [] => 0
  | (_, v) :: rest => max v.depth (depthMembers rest)

end

mutual

/-- All floats in a value. -/
def reals : Value → List Float
  | .real x => [x]
  | .list items => realsAll items
  | .object members => realsMembers members
  | .null => []
  | .bool _ => []
  | .whole _ => []
  | .text _ => []

/-- The floats in all items. -/
def realsAll : List Value → List Float
  | [] => []
  | v :: rest => v.reals ++ realsAll rest

/-- The floats in all members. -/
def realsMembers : List (String × Value) → List Float
  | [] => []
  | (_, v) :: rest => v.reals ++ realsMembers rest

end

theorem realsMembers_eq_flatMap (members : List (String × Value)) :
    realsMembers members = members.flatMap fun p => p.2.reals := by
  induction members with
  | nil => rfl
  | cons p members ih => rw [realsMembers, ih, List.flatMap_cons]

end Value

/-- Items behind the first of a list, each with the comma before it. -/
def moreItems (items : List Value) : Bytes :=
  items.flatMap fun v => 44 :: utf8 v.print

/-- A member of an object behind the quote that opens its name. -/
def memberBytes (m : String × Value) : Bytes :=
  escaped m.1 ++ 34 :: 58 :: utf8 m.2.print

/-- Members behind the first of an object, each with the comma before it. -/
def moreMembers (members : List (String × Value)) : Bytes :=
  members.flatMap fun m => 44 :: 34 :: memberBytes m

theorem utf8_printItems (v : Value) (items : List Value) :
    utf8 (Value.printItems (v :: items)) = utf8 v.print ++ moreItems items := by
  have hcomma : utf8 "," = [44] := by decide +kernel
  induction items generalizing v with
  | nil => simp [Value.printItems, moreItems]
  | cons w items ih =>
    rw [Value.printItems, utf8_append, utf8_append, hcomma, ih w]
    · simp [moreItems]
    · simp

theorem moreMembers_cons (m : String × Value) (members : List (String × Value)) :
    moreMembers (m :: members) = 44 :: 34 :: (memberBytes m ++ moreMembers members) := by
  simp [moreMembers]

theorem utf8_printMembers (m : String × Value) (members : List (String × Value)) :
    utf8 (Value.printMembers (m :: members)) = 34 :: (memberBytes m ++ moreMembers members) := by
  have hcomma : utf8 "," = [44] := by decide +kernel
  have hcolon : utf8 ":" = [58] := by decide +kernel
  induction members generalizing m with
  | nil => simp [Value.printMembers, moreMembers, memberBytes, utf8_printText, hcolon]
  | cons n members ih =>
    obtain ⟨name, v⟩ := m
    rw [Value.printMembers]
    · simp [moreMembers, memberBytes, utf8_printText, hcolon, hcomma, ih n]
    · simp

/-- Whether a text starts like a value: not with a blank, nor with the end of a list. -/
def StartsValue (text : Bytes) : Prop :=
  ∃ b rest, text = b :: rest ∧ isBlank b = false ∧ b ≠ 93

theorem startsValue_cons {b : UInt8} (rest : Bytes) (h : isBlank b = false ∧ b ≠ 93) :
    StartsValue (b :: rest) :=
  ⟨b, rest, rfl, h.1, h.2⟩

theorem StartsValue.append {text : Bytes} (h : StartsValue text) (rest : Bytes) :
    StartsValue (text ++ rest) := by
  obtain ⟨b, more, rfl, hb⟩ := h
  exact startsValue_cons _ hb

theorem StartsValue.skipBlanks {text : Bytes} (h : StartsValue text) : skipBlanks text = text := by
  obtain ⟨b, rest, rfl, hb, -⟩ := h
  rw [Json.skipBlanks, hb]
  rfl

theorem startsValue_of_startsNumber {b : UInt8} (hb : startsNumber b = true) (rest : Bytes) :
    StartsValue (b :: rest) := by
  refine startsValue_cons rest ⟨?_, ?_⟩
  · cases hblank : isBlank b with
    | false => rfl
    | true =>
      simp only [isBlank, Bool.or_eq_true, beq_iff_eq] at hblank
      rcases hblank with ((rfl | rfl) | rfl) | rfl <;> exact absurd hb (by decide)
  · rintro rfl
    exact absurd hb (by decide)

theorem startsValue_of_readNumber {text left : Bytes} {n : Number}
    (h : readNumber text = .ok (n, left)) : StartsValue text := by
  obtain ⟨b, more, rfl, hb⟩ := startsNumber_of_readNumber h
  exact startsValue_of_startsNumber hb more

theorem nextItem_first {text : Bytes} (h : StartsValue text) :
    nextItem true text = .ok (.item text) := by
  have hskip := h.skipBlanks
  obtain ⟨b, rest, rfl, -, hb⟩ := h
  rw [nextItem, hskip]
  split
  · next hnil => cases hnil
  · next hend => exact absurd (List.cons.inj hend).1 hb
  · next hcons =>
    obtain ⟨rfl, rfl⟩ := List.cons.inj hcons
    rfl

theorem nextItem_more {text : Bytes} (h : StartsValue text) :
    nextItem false (44 :: text) = .ok (.item text) := by
  have hskip := h.skipBlanks
  obtain ⟨b, rest, rfl, -, hb⟩ := h
  have hcomma : skipBlanks (44 :: b :: rest) = 44 :: b :: rest := rfl
  unfold nextItem
  rw [hcomma]
  split
  · next hnil => cases hnil
  · next hend => exact absurd (List.cons.inj hend).1 (by decide)
  · next c left _ hleft =>
    obtain ⟨rfl, rfl⟩ := List.cons.inj hleft
    rw [if_neg Bool.false_ne_true, if_pos rfl, hskip]
    split
    · next hnil => cases hnil
    · next hend => exact absurd (List.cons.inj hend).1 hb
    · rfl

/-- A value is written with at least one byte, which is no blank and does not end a list. -/
theorem startsValue_print (v : Value) (hx : ∀ x ∈ v.reals, ReadsBack x) :
    StartsValue (utf8 v.print) := by
  have hopen : utf8 "[" = [91] := by decide +kernel
  have hbrace : utf8 "\x7b" = [123] := by decide +kernel
  cases v with
  | null => exact startsValue_cons _ (by decide +kernel)
  | bool b => cases b <;> exact startsValue_cons _ (by decide +kernel)
  | whole n => exact startsValue_of_readNumber (readNumber_whole n)
  | real x => exact startsValue_of_readNumber (hx x List.mem_cons_self)
  | text s =>
    rw [Value.print, utf8_printText]
    exact startsValue_cons _ (by decide)
  | list items =>
    rw [Value.print, utf8_append, utf8_append, hopen]
    exact startsValue_cons _ (by decide)
  | object members =>
    rw [Value.print, utf8_append, utf8_append, hbrace]
    exact startsValue_cons _ (by decide)

/-- Only `null` starts with the letter n. -/
theorem print_ne_cons {v : Value} (hv : v ≠ .null) (hx : ∀ x ∈ v.reals, ReadsBack x)
    (rest : Bytes) : utf8 v.print ≠ 110 :: rest := by
  have hnumber : ∀ {text : Bytes} {n : Number}, readNumber text = .ok (n, []) →
      text ≠ 110 :: rest := by
    rintro text n h rfl
    obtain ⟨b, more, he, hb⟩ := startsNumber_of_readNumber h
    rw [← (List.cons.inj he).1] at hb
    exact absurd hb (by decide)
  intro h
  have hhead : (utf8 v.print).head? = some 110 := congrArg List.head? h
  have hopen : utf8 "[" = [91] := by decide +kernel
  have hbrace : utf8 "\x7b" = [123] := by decide +kernel
  cases v with
  | null => exact hv rfl
  | bool b => cases b <;> exact absurd hhead (by decide +kernel)
  | whole n => exact hnumber (readNumber_whole n) h
  | real x => exact hnumber (hx x List.mem_cons_self) h
  | text s =>
    rw [Value.print, utf8_printText] at hhead
    exact absurd hhead (by simp)
  | list items =>
    rw [Value.print, utf8_append, utf8_append, hopen] at hhead
    exact absurd hhead (by simp)
  | object members =>
    rw [Value.print, utf8_append, utf8_append, hbrace] at hhead
    exact absurd hhead (by simp)

theorem endsNumber_moreItems (items : List Value) (rest : Bytes) :
    EndsNumber (moreItems items ++ 93 :: rest) := by
  cases items with
  | nil => exact endsNumber_cons _ (by decide)
  | cons v items => exact endsNumber_cons _ (by decide)

theorem endsNumber_moreMembers (members : List (String × Value)) (rest : Bytes) :
    EndsNumber (moreMembers members ++ 125 :: rest) := by
  cases members with
  | nil => exact endsNumber_cons _ (by decide)
  | cons m members => exact endsNumber_cons _ (by decide)

/-! ### One round of the reader -/

section Rounds

variable {fuel depth : Nat} {text more left rest : Bytes}

theorem readValueWith_number {n : Number} (h : readNumber text = .ok (n, left)) :
    readValueWith (fuel + 1) depth text = .ok (n.toValue, left) := by
  have hskip := (startsValue_of_readNumber h).skipBlanks
  obtain ⟨b, more, rfl, hb⟩ := startsNumber_of_readNumber h
  have hnull : b ≠ 110 := by rintro rfl; exact absurd hb (by decide)
  have htrue : b ≠ 116 := by rintro rfl; exact absurd hb (by decide)
  have hfalse : b ≠ 102 := by rintro rfl; exact absurd hb (by decide)
  simp only [readValueWith, hskip, if_neg hnull, if_neg htrue, if_neg hfalse, if_pos hb, h]
  rfl

private theorem readValueWith_text (s : String) (rest : Bytes) :
    readValueWith (fuel + 1) depth (34 :: (escaped s ++ 34 :: rest)) = .ok (.text s, rest) := by
  have hread := readText_escaped s rest
  change (readText (escaped s ++ 34 :: rest)).map (fun p => (Value.text p.1, p.2)) = _
  rw [hread]
  rfl

theorem readValueWith_list {items : List Value} (hd : 1 < depth)
    (h : readItems fuel (depth - 1) true text = .ok (items, 93 :: rest)) :
    readValueWith (fuel + 1) depth (91 :: text) = .ok (.list items, rest) := by
  change (if depth ≤ 1 then _ else _) = _
  rw [if_neg (by omega), h]
  rfl

theorem readValueWith_object {members : List (String × Value)} (hd : 1 < depth)
    (h : readMembers fuel (depth - 1) true text = .ok (members, 125 :: rest)) :
    readValueWith (fuel + 1) depth (123 :: text) = .ok (.object members, rest) := by
  change (if depth ≤ 1 then _ else _) = _
  rw [if_neg (by omega), h]
  rfl

private theorem readItems_cons {first : Bool} {v : Value} {items : List Value}
    (hnext : nextItem first text = .ok (.item (utf8 v.print ++ more)))
    (hv : readValueWith fuel depth (utf8 v.print ++ more) = .ok (v, more))
    (hmore : readItems fuel depth false more = .ok (items, left)) :
    readItems (fuel + 1) depth first text = .ok (v :: items, left) := by
  simp only [readItems, hnext, hv, hmore]
  rfl

private theorem readMembers_cons {first : Bool} {m : String × Value}
    {members : List (String × Value)}
    (hnext : nextName first text = .ok (.name (memberBytes m ++ more)))
    (hv : readValueWith fuel depth (utf8 m.2.print ++ more) = .ok (m.2, more))
    (hmore : readMembers fuel depth false more = .ok (members, left)) :
    readMembers (fuel + 1) depth first text = .ok (m :: members, left) := by
  have hname : readText (memberBytes m ++ more) = .ok (m.1, 58 :: (utf8 m.2.print ++ more)) := by
    rw [memberBytes, List.append_assoc]
    exact readText_escaped m.1 _
  have hcolon : readColon (58 :: (utf8 m.2.print ++ more)) = .ok (utf8 m.2.print ++ more) := rfl
  simp only [readMembers, hnext, hname, hcolon, hv, hmore]
  rfl

end Rounds

/-! ### All rounds

The recursion is on the value. Two rounds for each byte are enough: one opens a list or an object,
one looks for the next item or member. -/

mutual

theorem readValueWith_print (v : Value) (fuel depth : Nat) (rest : Bytes)
    (hr : EndsNumber rest) (hd : v.depth < depth) (hx : ∀ x ∈ v.reals, ReadsBack x)
    (hf : 2 * (utf8 v.print).length ≤ fuel) :
    readValueWith fuel depth (utf8 v.print ++ rest) = .ok (v, rest) := by
  have hpos : 0 < (utf8 v.print).length := by
    obtain ⟨b, more, h, -⟩ := startsValue_print v hx
    rw [h]
    exact Nat.succ_pos _
  obtain ⟨fuel, rfl⟩ : ∃ f, fuel = f + 1 := ⟨fuel - 1, by omega⟩
  cases v with
  | null =>
    have hnull : utf8 "null" = [110, 117, 108, 108] := by decide +kernel
    rw [Value.print, hnull]
    rfl
  | bool b =>
    have htrue : utf8 "true" = [116, 114, 117, 101] := by decide +kernel
    have hfalse : utf8 "false" = [102, 97, 108, 115, 101] := by decide +kernel
    cases b with
    | true =>
      rw [Value.print, htrue]
      rfl
    | false =>
      rw [Value.print, hfalse]
      rfl
  | whole n => exact readValueWith_number (readNumber_append (readNumber_whole n) hr)
  | real x => exact readValueWith_number (readNumber_append (hx x List.mem_cons_self) hr)
  | text s =>
    rw [Value.print, utf8_printText, List.cons_append, List.append_assoc]
    exact readValueWith_text s rest
  | list items =>
    have hopen : utf8 "[" = [91] := by decide +kernel
    have hclose : utf8 "]" = [93] := by decide +kernel
    simp only [Value.depth] at hd
    simp only [Value.print, utf8_append, hopen, hclose, List.append_assoc, List.cons_append,
      List.nil_append, List.length_cons, List.length_append, List.length_nil] at hf ⊢
    apply readValueWith_list (by omega)
    cases items with
    | nil =>
      obtain ⟨fuel, rfl⟩ : ∃ f, fuel = f + 1 := ⟨fuel - 1, by omega⟩
      rfl
    | cons v items =>
      simp only [Value.depthAll, Value.reals, Value.realsAll] at hd hx
      rw [utf8_printItems] at hf ⊢
      simp only [List.length_append, List.append_assoc] at hf ⊢
      obtain ⟨fuel, rfl⟩ : ∃ f, fuel = f + 1 := ⟨fuel - 1, by omega⟩
      have hfirst := readValueWith_print v fuel (depth - 1) (moreItems items ++ 93 :: rest)
        (endsNumber_moreItems items rest) (by omega)
        (fun x hxv => hx x (List.mem_append_left _ hxv)) (by omega)
      have hmore := readItems_more items fuel (depth - 1) rest (by omega)
        (fun x hxv => hx x (List.mem_append_right _ hxv)) (by omega)
      have hstart := startsValue_print v fun x hxv => hx x (List.mem_append_left _ hxv)
      exact readItems_cons (nextItem_first (hstart.append _)) hfirst hmore
  | object members =>
    have hopen : utf8 "\x7b" = [123] := by decide +kernel
    have hclose : utf8 "\x7d" = [125] := by decide +kernel
    simp only [Value.depth] at hd
    simp only [Value.print, utf8_append, hopen, hclose, List.append_assoc, List.cons_append,
      List.nil_append, List.length_cons, List.length_append, List.length_nil] at hf ⊢
    apply readValueWith_object (by omega)
    cases members with
    | nil =>
      obtain ⟨fuel, rfl⟩ : ∃ f, fuel = f + 1 := ⟨fuel - 1, by omega⟩
      rfl
    | cons m members =>
      obtain ⟨name, v⟩ := m
      simp only [Value.depthMembers, Value.reals, Value.realsMembers] at hd hx
      rw [utf8_printMembers] at hf ⊢
      simp only [memberBytes, List.length_append, List.length_cons] at hf
      obtain ⟨fuel, rfl⟩ : ∃ f, fuel = f + 1 := ⟨fuel - 1, by omega⟩
      have hfirst := readValueWith_print v fuel (depth - 1) (moreMembers members ++ 125 :: rest)
        (endsNumber_moreMembers members rest) (by omega)
        (fun x hxv => hx x (List.mem_append_left _ hxv)) (by omega)
      have hmore := readMembers_more members fuel (depth - 1) rest (by omega)
        (fun x hxv => hx x (List.mem_append_right _ hxv)) (by omega)
      have hnext : nextName true
          (34 :: (memberBytes (name, v) ++ moreMembers members) ++ 125 :: rest) =
          .ok (.name (memberBytes (name, v) ++ (moreMembers members ++ 125 :: rest))) := by
        rw [List.cons_append, List.append_assoc]
        rfl
      exact readMembers_cons hnext hfirst hmore

theorem readItems_more (items : List Value) (fuel depth : Nat) (rest : Bytes)
    (hd : Value.depthAll items < depth) (hx : ∀ x ∈ Value.realsAll items, ReadsBack x)
    (hf : 2 * (moreItems items).length + 1 ≤ fuel) :
    readItems fuel depth false (moreItems items ++ 93 :: rest) = .ok (items, 93 :: rest) := by
  obtain ⟨fuel, rfl⟩ : ∃ f, fuel = f + 1 := ⟨fuel - 1, by omega⟩
  cases items with
  | nil => rfl
  | cons v items =>
    have hcons : moreItems (v :: items) = 44 :: (utf8 v.print ++ moreItems items) := by
      simp [moreItems]
    simp only [Value.depthAll, Value.realsAll] at hd hx
    rw [hcons] at hf ⊢
    simp only [List.length_cons, List.length_append] at hf
    have hfirst := readValueWith_print v fuel depth (moreItems items ++ 93 :: rest)
      (endsNumber_moreItems items rest) (by omega)
      (fun x hxv => hx x (List.mem_append_left _ hxv)) (by omega)
    have hmore := readItems_more items fuel depth rest (by omega)
      (fun x hxv => hx x (List.mem_append_right _ hxv)) (by omega)
    have hstart := startsValue_print v fun x hxv => hx x (List.mem_append_left _ hxv)
    rw [List.cons_append, List.append_assoc]
    exact readItems_cons (nextItem_more (hstart.append _)) hfirst hmore

theorem readMembers_more (members : List (String × Value)) (fuel depth : Nat) (rest : Bytes)
    (hd : Value.depthMembers members < depth)
    (hx : ∀ x ∈ Value.realsMembers members, ReadsBack x)
    (hf : 2 * (moreMembers members).length + 1 ≤ fuel) :
    readMembers fuel depth false (moreMembers members ++ 125 :: rest) =
      .ok (members, 125 :: rest) := by
  obtain ⟨fuel, rfl⟩ : ∃ f, fuel = f + 1 := ⟨fuel - 1, by omega⟩
  cases members with
  | nil => rfl
  | cons m members =>
    obtain ⟨name, v⟩ := m
    simp only [Value.depthMembers, Value.realsMembers] at hd hx
    rw [moreMembers_cons] at hf ⊢
    simp only [memberBytes, List.length_cons, List.length_append] at hf
    have hfirst := readValueWith_print v fuel depth (moreMembers members ++ 125 :: rest)
      (endsNumber_moreMembers members rest) (by omega)
      (fun x hxv => hx x (List.mem_append_left _ hxv)) (by omega)
    have hmore := readMembers_more members fuel depth rest (by omega)
      (fun x hxv => hx x (List.mem_append_right _ hxv)) (by omega)
    have hnext : nextName false
        (44 :: 34 :: (memberBytes (name, v) ++ moreMembers members) ++ 125 :: rest) =
        .ok (.name (memberBytes (name, v) ++ (moreMembers members ++ 125 :: rest))) := by
      rw [List.cons_append, List.cons_append, List.append_assoc]
      rfl
    exact readMembers_cons hnext hfirst hmore

end

/-- What stands behind the opening brace of an object, without its closing brace. -/
def objectBytes : List (String × Value) → Bytes
  | [] => []
  | m :: members => 34 :: (memberBytes m ++ moreMembers members)

theorem length_le_objectBytes (members : List (String × Value)) :
    members.length ≤ (objectBytes members).length := by
  have hmore :
    ∀ members : List (String × Value), members.length ≤ (moreMembers members).length := by
    intro members
    induction members with
    | nil => exact Nat.le_refl 0
    | cons m members ih =>
      rw [moreMembers_cons]
      simp only [List.length_cons, List.length_append]
      omega
  cases members with
  | nil => exact Nat.le_refl 0
  | cons m members =>
    have := hmore members
    simp only [objectBytes, List.length_cons, List.length_append]
    omega

theorem utf8_print_object (members : List (String × Value)) :
    utf8 (Value.object members).print = 123 :: (objectBytes members ++ [125]) := by
  have hopen : utf8 "\x7b" = [123] := by decide +kernel
  have hclose : utf8 "\x7d" = [125] := by decide +kernel
  rw [Value.print, utf8_append, utf8_append, hopen, hclose]
  cases members with
  | nil => rfl
  | cons m members => rw [utf8_printMembers]; rfl

/-- A value is read back from its compact text, whatever follows that cannot go on with a number. -/
theorem readValue_print (v : Value) {depth : Nat} {rest : Bytes} (hr : EndsNumber rest)
    (hd : v.depth < depth) (hx : ∀ x ∈ v.reals, ReadsBack x) :
    readValue depth (utf8 v.print ++ rest) = .ok (v, rest) := by
  apply readValueWith_print v _ depth rest hr hd hx
  simp only [rounds, List.length_append]
  omega

end Roaming.Json
