import Roaming.Proofs.Layout

/-!
# Texts of values

How a value stands in a text (`Spells`), told apart from its reader: literals, and lists and objects
that are laid out with blanks between the tokens. The reader takes such a text for the value, and
nothing else for a value.
-/

set_option autoImplicit false
set_option relaxedAutoImplicit false

namespace Roaming.Json

open Roaming.Text

mutual

/-- Whether a text is that of a value, without blanks around it. -/
def Spells : Value → Bytes → Prop
  | .null, own => own = 110 :: nullTail
  | .bool b, own => own = if b then 116 :: trueTail else 102 :: falseTail
  | .whole n, own => readNumber own = .ok (.whole n, [])
  | .real x, own => readNumber own = .ok (.real x, [])
  | .text s, own => ∃ label, readText label = .ok (s, []) ∧ own = 34 :: label
  | .list items, own => ∃ owns inner, SpellsItems items owns ∧ Listed true owns inner ∧
      own = 91 :: (inner ++ [93])
  | .object members, own => ∃ laid inner, SpellsMembers members laid ∧ Laid true laid inner ∧
      own = 123 :: (inner ++ [125])

/-- Whether texts are those of values, item by item. -/
def SpellsItems : List Value → List Bytes → Prop
  | [], owns => owns = []
  | v :: items, owns => ∃ own more, owns = own :: more ∧ Spells v own ∧ SpellsItems items more

/-- Whether members stand for members with values, one by one. -/
def SpellsMembers : List (String × Value) → List Member → Prop
  | [], laid => laid = []
  | (name, v) :: members, laid => ∃ m more, laid = m :: more ∧ m.name = name ∧ Spells v m.text ∧
      SpellsMembers members more

end

/-! ### What is taken for a value -/

theorem exists_of_bind_ok {ε α β : Type} {x : Except ε α} {f : α → Except ε β} {b : β}
    (h : x.bind f = .ok b) : ∃ a, x = .ok a ∧ f a = .ok b := by
  cases x with
  | error e => cases h
  | ok a => exact ⟨a, rfl, h⟩

theorem exists_of_map_ok {ε α β : Type} {x : Except ε α} {f : α → β} {b : β}
    (h : x.map f = .ok b) : ∃ a, x = .ok a ∧ f a = b := by
  cases x with
  | error e => cases h
  | ok a => exact ⟨a, rfl, Except.ok.inj h⟩

private theorem spells_number {n : Number} {own : Bytes} (h : readNumber own = .ok (n, [])) :
    Spells n.toValue own := by
  cases n with
  | whole n =>
    rw [Number.toValue, Spells]
    exact h
  | real x =>
    rw [Number.toValue, Spells]
    exact h

private theorem depth_toValue (n : Number) : n.toValue.depth = 0 := by
  cases n <;> rw [Number.toValue, Value.depth]

/-- What is read from a word is written with it. -/
private theorem spells_of_word {v w : Value} {b c : UInt8} {word gap tail rest : Bytes}
    {depth : Nat} (hgap : Blank gap) (hb : b = c)
    (h : (readWord word tail).map (fun r => (v, r)) = .ok (w, rest))
    (hv : Spells v (c :: word)) (hd : v.depth < depth) :
    ∃ gap' own, Blank gap' ∧ Spells w own ∧ w.depth < depth ∧
      gap ++ b :: tail = gap' ++ (own ++ rest) := by
  obtain ⟨r, hword, hp⟩ := exists_of_map_ok h
  obtain ⟨rfl, rfl⟩ := Prod.mk.inj hp
  refine ⟨gap, c :: word, hgap, hv, hd, ?_⟩
  rw [hb, eq_append_of_readWord hword, List.cons_append]

/-! The recursion is on the rounds of the reader. -/

mutual

theorem spells_of_readValueWith (fuel : Nat) {depth : Nat} {text rest : Bytes} {v : Value}
    (hd : 0 < depth) (h : readValueWith fuel depth text = .ok (v, rest)) :
    ∃ gap own, Blank gap ∧ Spells v own ∧ v.depth < depth ∧ text = gap ++ (own ++ rest) := by
  cases fuel with
  | zero => cases h
  | succ fuel =>
    rw [readValueWith] at h
    split at h
    · cases h
    · next b tail hskip =>
      obtain ⟨gap, hgap, rfl⟩ := exists_blank_of_cons hskip
      split at h
      · next hb => exact spells_of_word hgap hb h (by rw [Spells]) hd
      split at h
      · next hb => exact spells_of_word hgap hb h (by simp [Spells]) hd
      split at h
      · next hb => exact spells_of_word hgap hb h (by simp [Spells]) hd
      split at h
      · obtain ⟨p, hnumber, hp⟩ := exists_of_map_ok h
        obtain ⟨rfl, rfl⟩ := Prod.mk.inj hp
        obtain ⟨own, htext, hown, -⟩ := readNumber_cut hnumber
        refine ⟨gap, own, hgap, spells_number hown, ?_, by rw [htext]⟩
        rw [depth_toValue]
        exact hd
      split at h
      · next hb =>
        obtain ⟨p, htext, hp⟩ := exists_of_map_ok h
        obtain ⟨rfl, rfl⟩ := Prod.mk.inj hp
        obtain ⟨own, rfl, htakes, -⟩ := readText_cut htext
        have hown := htakes []
        rw [List.append_nil] at hown
        refine ⟨gap, 34 :: own, hgap, ?_, hd, by rw [hb, List.cons_append]⟩
        rw [Spells]
        exact ⟨own, hown, rfl⟩
      split at h
      · next hb =>
        split at h
        · cases h
        · next hdeep =>
          split at h
          · cases h
          · next items left hitems =>
            obtain ⟨owns, inner, more, hspells, hlisted, hdepth, rfl, rfl⟩ :=
              spellsItems_of_readItems fuel (by omega) hitems
            obtain ⟨r, hleave, hp⟩ := exists_of_map_ok h
            obtain ⟨rfl, rfl⟩ := Prod.mk.inj hp
            obtain rfl := Except.ok.inj hleave
            refine ⟨gap, 91 :: (inner ++ [93]), hgap, ?_, ?_, by simp [hb]⟩
            · rw [Spells]
              exact ⟨owns, inner, hspells, hlisted, rfl⟩
            · rw [Value.depth]
              omega
      split at h
      · next hb =>
        split at h
        · cases h
        · next hdeep =>
          split at h
          · cases h
          · next members left hmembers =>
            obtain ⟨laid, inner, more, hspells, hlaid, hdepth, rfl, rfl⟩ :=
              spellsMembers_of_readMembers fuel (by omega) hmembers
            obtain ⟨r, hleave, hp⟩ := exists_of_map_ok h
            obtain ⟨rfl, rfl⟩ := Prod.mk.inj hp
            obtain rfl := Except.ok.inj hleave
            refine ⟨gap, 123 :: (inner ++ [125]), hgap, ?_, ?_, by simp [hb]⟩
            · rw [Spells]
              exact ⟨laid, inner, hspells, hlaid, rfl⟩
            · rw [Value.depth]
              omega
      · cases h

theorem spellsItems_of_readItems (fuel : Nat) {depth : Nat} {first : Bool} {text rest : Bytes}
    {items : List Value} (hd : 0 < depth)
    (h : readItems fuel depth first text = .ok (items, rest)) :
    ∃ owns inner more, SpellsItems items owns ∧ Listed first owns inner ∧
      Value.depthAll items < depth ∧ text = inner ++ rest ∧ rest = 93 :: more := by
  cases fuel with
  | zero => cases h
  | succ fuel =>
    rw [readItems] at h
    split at h
    · cases h
    · next left hnext =>
      obtain ⟨rfl, rfl⟩ := Prod.mk.inj (Except.ok.inj h)
      obtain ⟨gap, more, hgap, rfl, rfl⟩ := exists_blank_of_end hnext
      exact ⟨[], gap, more, by rw [SpellsItems], hgap, hd, rfl, rfl⟩
    · next left hnext =>
      obtain ⟨gap, hgap, rfl⟩ := exists_before_of_item hnext
      split at h
      · cases h
      · next v left' hv =>
        obtain ⟨back, own, hback, hspells, hdepth, rfl⟩ := spells_of_readValueWith fuel hd hv
        obtain ⟨p, hitems, hp⟩ := exists_of_map_ok h
        obtain ⟨rfl, rfl⟩ := Prod.mk.inj hp
        obtain ⟨owns, inner, more, hmore, hlisted, hall, rfl, hrest⟩ :=
          spellsItems_of_readItems fuel hd hitems
        refine ⟨own :: owns, gap ++ back ++ (own ++ inner), more, ?_, ?_, ?_, by simp, hrest⟩
        · rw [SpellsItems]
          exact ⟨own, owns, rfl, hspells, hmore⟩
        · exact ⟨gap ++ back, inner, hgap.append hback, hlisted, rfl⟩
        · rw [Value.depthAll]
          omega

theorem spellsMembers_of_readMembers (fuel : Nat) {depth : Nat} {first : Bool} {text rest : Bytes}
    {members : List (String × Value)} (hd : 0 < depth)
    (h : readMembers fuel depth first text = .ok (members, rest)) :
    ∃ laid inner more, SpellsMembers members laid ∧ Laid first laid inner ∧
      Value.depthMembers members < depth ∧ text = inner ++ rest ∧ rest = 125 :: more := by
  cases fuel with
  | zero => cases h
  | succ fuel =>
    rw [readMembers] at h
    split at h
    · cases h
    · next left hnext =>
      obtain ⟨rfl, rfl⟩ := Prod.mk.inj (Except.ok.inj h)
      obtain ⟨gap, more, hgap, rfl, rfl⟩ := exists_blank_of_close hnext
      exact ⟨[], gap, more, by rw [SpellsMembers], hgap, hd, rfl, rfl⟩
    · next left hnext =>
      obtain ⟨gap, hgap, rfl⟩ := exists_before_of_name hnext
      split at h
      · cases h
      · next name left' hname =>
        obtain ⟨label, rfl, htakes, -⟩ := readText_cut hname
        have hlabel := htakes []
        rw [List.append_nil] at hlabel
        split at h
        · cases h
        · next left₂ hcolon =>
          obtain ⟨front, hfront, rfl⟩ := exists_colon hcolon
          split at h
          · cases h
          · next v left₃ hv =>
            obtain ⟨back, own, hback, hspells, hdepth, rfl⟩ := spells_of_readValueWith fuel hd hv
            obtain ⟨p, hmembers, hp⟩ := exists_of_map_ok h
            obtain ⟨rfl, rfl⟩ := Prod.mk.inj hp
            obtain ⟨laid, inner, more, hmore, hlaid, hall, rfl, hrest⟩ :=
              spellsMembers_of_readMembers fuel hd hmembers
            refine ⟨⟨name, own⟩ :: laid,
              gap ++ 34 :: (label ++ (front ++ 58 :: back ++ (own ++ inner))), more, ?_, ?_, ?_,
              by simp, hrest⟩
            · rw [SpellsMembers]
              exact ⟨⟨name, own⟩, laid, rfl, rfl, hspells, hmore⟩
            · exact ⟨gap, label, front ++ 58 :: back, inner, hgap, hlabel,
                ⟨front, back, hfront, hback, rfl⟩, hlaid, rfl⟩
            · rw [Value.depthMembers]
              omega

end

/-! ### What a value is read from -/

/-- A value is written with at least one byte, which is no blank and does not end a list. -/
theorem startsValue_of_spells {v : Value} {own : Bytes} (h : Spells v own) : StartsValue own := by
  cases v with
  | null =>
    rw [Spells] at h
    exact h ▸ startsValue_cons _ (by decide)
  | bool b =>
    rw [Spells] at h
    cases b <;> exact h ▸ startsValue_cons _ (by decide)
  | whole n =>
    rw [Spells] at h
    exact startsValue_of_readNumber h
  | real x =>
    rw [Spells] at h
    exact startsValue_of_readNumber h
  | text s =>
    rw [Spells] at h
    obtain ⟨label, -, rfl⟩ := h
    exact startsValue_cons _ (by decide)
  | list items =>
    rw [Spells] at h
    obtain ⟨owns, inner, -, -, rfl⟩ := h
    exact startsValue_cons _ (by decide)
  | object members =>
    rw [Spells] at h
    obtain ⟨laid, inner, -, -, rfl⟩ := h
    exact startsValue_cons _ (by decide)

theorem endsNumber_listed {owns : List Bytes} {inner : Bytes} (h : Listed false owns inner)
    (rest : Bytes) : EndsNumber (inner ++ 93 :: rest) := by
  cases owns with
  | nil => exact endsNumber_append h (endsNumber_cons _ (by decide))
  | cons own owns =>
    obtain ⟨gap, more, hgap, -, rfl⟩ := h
    rw [List.append_assoc]
    exact endsNumber_before hgap _

theorem endsNumber_laid {laid : List Member} {inner : Bytes} (h : Laid false laid inner)
    (rest : Bytes) : EndsNumber (inner ++ 125 :: rest) := by
  cases laid with
  | nil => exact endsNumber_append h (endsNumber_cons _ (by decide))
  | cons m laid =>
    obtain ⟨gap, label, colon, more, hgap, -, -, -, rfl⟩ := h
    rw [List.append_assoc]
    exact endsNumber_before hgap _

private theorem readValueWith_blanks {gap : Bytes} (h : Blank gap) (fuel depth : Nat)
    (text : Bytes) :
    readValueWith (fuel + 1) depth (gap ++ text) = readValueWith (fuel + 1) depth text := by
  rw [readValueWith, readValueWith, skipBlanks_append h]

mutual

theorem readValueWith_spells (v : Value) (fuel depth : Nat) {own gap more : Bytes}
    (h : Spells v own) (hgap : Blank gap) (hd : v.depth < depth) (hr : EndsNumber more)
    (hf : 2 * own.length ≤ fuel) :
    readValueWith fuel depth (gap ++ (own ++ more)) = .ok (v, more) := by
  have hpos : 0 < own.length := by
    obtain ⟨b, tail, rfl, -⟩ := startsValue_of_spells h
    exact Nat.succ_pos _
  obtain ⟨fuel, rfl⟩ : ∃ f, fuel = f + 1 := ⟨fuel - 1, by omega⟩
  rw [readValueWith_blanks hgap]
  cases v with
  | null =>
    rw [Spells] at h
    subst h
    rfl
  | bool b =>
    rw [Spells] at h
    subst h
    cases b <;> rfl
  | whole n =>
    rw [Spells] at h
    exact readValueWith_number (readNumber_append h hr)
  | real x =>
    rw [Spells] at h
    exact readValueWith_number (readNumber_append h hr)
  | text s =>
    rw [Spells] at h
    obtain ⟨label, hlabel, rfl⟩ := h
    change (readText (label ++ more)).map (fun p => (Value.text p.1, p.2)) = _
    rw [takes_readText hlabel more]
    rfl
  | list items =>
    rw [Spells] at h
    obtain ⟨owns, inner, hspells, hlisted, rfl⟩ := h
    rw [Value.depth] at hd
    simp only [List.length_cons, List.length_append, List.length_nil] at hf
    have hitems := readItems_listed items fuel (depth - 1) more hspells hlisted (by omega)
      (by omega)
    simp only [List.cons_append, List.append_assoc, List.nil_append]
    exact readValueWith_list (by omega) hitems
  | object members =>
    rw [Spells] at h
    obtain ⟨laid, inner, hspells, hlaid, rfl⟩ := h
    rw [Value.depth] at hd
    simp only [List.length_cons, List.length_append, List.length_nil] at hf
    have hmembers := readMembers_laid members fuel (depth - 1) more hspells hlaid (by omega)
      (by omega)
    simp only [List.cons_append, List.append_assoc, List.nil_append]
    exact readValueWith_object (by omega) hmembers

theorem readItems_listed (items : List Value) (fuel depth : Nat) (more : Bytes)
    {owns : List Bytes} {inner : Bytes} {first : Bool} (h : SpellsItems items owns)
    (hl : Listed first owns inner)
    (hd : Value.depthAll items < depth) (hf : 2 * inner.length < fuel) :
    readItems fuel depth first (inner ++ 93 :: more) = .ok (items, 93 :: more) := by
  obtain ⟨fuel, rfl⟩ : ∃ f, fuel = f + 1 := ⟨fuel - 1, by omega⟩
  cases items with
  | nil =>
    rw [SpellsItems] at h
    subst h
    have hnext : nextItem first (inner ++ 93 :: more) = .ok (.finish (93 :: more)) :=
      nextItem_end hl more
    simp only [readItems, hnext]
  | cons v items =>
    rw [SpellsItems] at h
    obtain ⟨own, owns, rfl, hv, hitems⟩ := h
    obtain ⟨gap, tail, hgap, htail, rfl⟩ := hl
    rw [Value.depthAll] at hd
    simp only [List.length_append] at hf
    have hstart := startsValue_of_spells hv
    have hpos : 0 < own.length := by
      obtain ⟨b, bytes, rfl, -⟩ := hstart
      exact Nat.succ_pos _
    have hread := readValueWith_spells v fuel depth hv blank_nil (by omega)
      (endsNumber_listed htail more) (by omega)
    have hmore := readItems_listed items fuel depth more hitems htail (by omega) (by omega)
    simp only [List.append_assoc, readItems, nextItem_before hgap (hstart.append _)]
    rw [List.nil_append] at hread
    simp only [hread, hmore]
    rfl

theorem readMembers_laid (members : List (String × Value)) (fuel depth : Nat) (more : Bytes)
    {laid : List Member} {inner : Bytes} {first : Bool} (h : SpellsMembers members laid)
    (hl : Laid first laid inner)
    (hd : Value.depthMembers members < depth) (hf : 2 * inner.length < fuel) :
    readMembers fuel depth first (inner ++ 125 :: more) = .ok (members, 125 :: more) := by
  obtain ⟨fuel, rfl⟩ : ∃ f, fuel = f + 1 := ⟨fuel - 1, by omega⟩
  cases members with
  | nil =>
    rw [SpellsMembers] at h
    subst h
    have hnext : nextName first (inner ++ 125 :: more) = .ok (.finish (125 :: more)) :=
      nextName_end hl more
    simp only [readMembers, hnext]
  | cons p members =>
    obtain ⟨name, v⟩ := p
    rw [SpellsMembers] at h
    obtain ⟨m, laid, rfl, rfl, hv, hmembers⟩ := h
    obtain ⟨gap, label, colon, tail, hgap, hlabel, hcolon, htail, rfl⟩ := hl
    rw [Value.depthMembers] at hd
    simp only [List.length_append, List.length_cons] at hf
    obtain ⟨back, hback, hcolon⟩ := readColon_append hcolon (m.text ++ (tail ++ 125 :: more))
    have hread := readValueWith_spells v fuel depth hv hback (by omega)
      (endsNumber_laid htail more) (by omega)
    have hmore := readMembers_laid members fuel depth more hmembers htail (by omega) (by omega)
    simp only [List.append_assoc, List.cons_append, readMembers, nextName_before hgap,
      takes_readText hlabel _, hcolon, hread, hmore]
    rfl

end

/-! ### Whole texts -/

section Whole

variable {v : Value} {own gap more text : Bytes} {depth : Nat}

/-- A value is read from its text, behind blanks and before what cannot go on with a number. -/
theorem readValue_spells (h : Spells v own) (hgap : Blank gap) (hd : v.depth < depth)
    (hr : EndsNumber more) : readValue depth (gap ++ (own ++ more)) = .ok (v, more) := by
  refine readValueWith_spells v _ _ h hgap hd hr ?_
  simp only [rounds, List.length_append]
  omega

theorem Spells.readValue_eq (h : Spells v own) (hd : v.depth < depth) :
    readValue depth own = .ok (v, []) := by
  have hread := readValue_spells h blank_nil hd endsNumber_nil
  rwa [List.nil_append, List.append_nil] at hread

theorem Spells.parse_eq (h : Spells v own) (hd : v.depth < maxDepth) :
    Value.parse own = .ok v := by
  rw [Value.parse, document, h.readValue_eq hd]
  rfl

/-- The text of a value is parsed with blanks around it. -/
theorem Spells.parse_append {front back : Bytes} (h : Spells v own) (hd : v.depth < maxDepth)
    (hfront : Blank front) (hback : Blank back) : Value.parse (front ++ (own ++ back)) = .ok v := by
  have hends : EndsNumber back := by
    have hnil := endsNumber_append hback endsNumber_nil
    rwa [List.append_nil] at hnil
  have hread := readValue_spells h hfront hd hends
  rw [Value.parse, document, hread]
  simp only [finish_ok_iff.mpr hback]

/-- What is parsed as a value is the text of the value with blanks around it. -/
theorem exists_spells_of_parse {text : Bytes} (h : Value.parse text = .ok v) :
    ∃ front own back, Blank front ∧ Blank back ∧ Spells v own ∧ v.depth < maxDepth ∧
      text = front ++ (own ++ back) := by
  unfold Value.parse document at h
  split at h
  · cases h
  · next v' rest hread =>
    split at h
    · cases h
    · next hfinish =>
      obtain rfl := Except.ok.inj h
      obtain ⟨front, own, hfront, hspells, hd, htext⟩ := spells_of_readValueWith _ (by decide) hread
      exact ⟨front, own, rest, hfront, finish_ok_iff.mp hfinish, hspells, hd, htext⟩

/-- What is read as a value to its end is the text of the value behind blanks. -/
theorem spells_of_readValue (hd : 0 < depth) (h : readValue depth text = .ok (v, [])) :
    ∃ gap own, Blank gap ∧ Spells v own ∧ v.depth < depth ∧ text = gap ++ own := by
  obtain ⟨gap, own, hgap, hspells, hdepth, htext⟩ := spells_of_readValueWith _ hd h
  exact ⟨gap, own, hgap, hspells, hdepth, by rw [htext, List.append_nil]⟩

end Whole

end Roaming.Json
