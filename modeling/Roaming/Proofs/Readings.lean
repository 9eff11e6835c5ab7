import Roaming.Proofs.Rows
import Roaming.Proofs.Unread

/-!
# Fields from a text and from a value

A field is read from a text, or taken from the value that was read there before. Both give the same
content and go on at the same place, or both refuse (`Matches`), except for a tag that is written as
an object. So a record that is read from a text depends on the value of this text only.
-/

set_option autoImplicit false
set_option relaxedAutoImplicit false

namespace Roaming

open Roaming.Text (Bytes utf8)
open Roaming.Json

/-- Whether a reader that leaves `rest` gives what a conversion gives, or both refuse. -/
inductive Matches {α : Type} (rest : Bytes) : Except Fault (α × Bytes) → Except Cause α → Prop where
  | ok (a : α) : Matches rest (.ok (a, rest)) (.ok a)
  | error (e : Fault) (c : Cause) : Matches rest (.error e) (.error c)

section Matches

variable {α β : Type} {rest : Bytes} {r : Except Fault (α × Bytes)} {c : Except Cause α}

theorem Matches.map (h : Matches rest r c) (f : α → β) :
    Matches rest (r.map fun p => (f p.1, p.2)) (c.map f) := by
  cases h with
  | ok a => exact .ok _
  | error e c => exact .error e c

theorem matches_orFault (c : Except Cause α) (rest : Bytes) : Matches rest (orFault c rest) c := by
  cases c with
  | ok a => exact .ok a
  | error c => exact .error _ c

theorem matches_refuse (wanted : Wanted) (text : Bytes) (c : Cause) :
    Matches rest (refuse wanted text : Except Fault (α × Bytes)) (.error c) := by
  cases h : (refuse wanted text : Except Fault (α × Bytes)) with
  | ok p => exact absurd h (refuse_ne_ok _ _ _)
  | error e => exact .error e c

end Matches

/-! ### The first byte of a value -/

/-- The first byte of a value tells its kind. -/
inductive Starts : Value → UInt8 → Prop where
  | null : Starts .null 110
  | bool (b : Bool) : Starts (.bool b) (if b then 116 else 102)
  | whole (n : Whole) (b : UInt8) (h : startsNumber b = true) : Starts (.whole n) b
  | real (x : Float) (b : UInt8) (h : startsNumber b = true) : Starts (.real x) b
  | text (s : String) : Starts (.text s) 34
  | list (items : List Value) : Starts (.list items) 91
  | object (members : List (String × Value)) : Starts (.object members) 123

theorem starts_of_spells {v : Value} {own : Bytes} (h : Spells v own) :
    ∃ b tail, own = b :: tail ∧ Starts v b := by
  cases v with
  | null =>
    rw [Spells] at h
    exact ⟨_, _, h, .null⟩
  | bool b =>
    rw [Spells] at h
    cases b with
    | true => exact ⟨_, _, h, .bool true⟩
    | false => exact ⟨_, _, h, .bool false⟩
  | whole n =>
    rw [Spells] at h
    obtain ⟨b, tail, rfl, hb⟩ := startsNumber_of_readNumber h
    exact ⟨b, tail, rfl, .whole n b hb⟩
  | real x =>
    rw [Spells] at h
    obtain ⟨b, tail, rfl, hb⟩ := startsNumber_of_readNumber h
    exact ⟨b, tail, rfl, .real x b hb⟩
  | text s =>
    rw [Spells] at h
    obtain ⟨label, -, rfl⟩ := h
    exact ⟨_, _, rfl, .text s⟩
  | list items =>
    rw [Spells] at h
    obtain ⟨owns, inner, -, -, rfl⟩ := h
    exact ⟨_, _, rfl, .list items⟩
  | object members =>
    rw [Spells] at h
    obtain ⟨laid, inner, -, -, rfl⟩ := h
    exact ⟨_, _, rfl, .object members⟩

theorem skipBlanks_spells {v : Value} {own gap : Bytes} (h : Spells v own) (hgap : Blank gap)
    (rest : Bytes) : skipBlanks (gap ++ (own ++ rest)) = own ++ rest := by
  rw [skipBlanks_append hgap, ((startsValue_of_spells h).append rest).skipBlanks]

/-! ### Contents -/

section Contents

variable {α : Type} {v : Value} {own gap rest : Bytes} {depth : Nat}

theorem readNumber_spells {n : Number} (h : Spells n.toValue own) (hr : EndsNumber rest) :
    readNumber (own ++ rest) = .ok (n, rest) := by
  cases n with
  | whole n =>
    rw [Number.toValue, Spells] at h
    exact readNumber_append h hr
  | real x =>
    rw [Number.toValue, Spells] at h
    exact readNumber_append h hr

private theorem ne_of_startsNumber {b c : UInt8} (hb : startsNumber b = true)
    (hc : startsNumber c = false) : b ≠ c := by
  rintro rfl
  rw [hb] at hc
  cases hc

theorem readTextField_spells (h : Spells v own) (hgap : Blank gap) :
    Matches rest (readTextField .text (gap ++ (own ++ rest))) (textOfValue v) := by
  have hskip := skipBlanks_spells h hgap rest
  obtain ⟨b, tail, rfl, hb⟩ := starts_of_spells h
  have hother : b ≠ 34 → ∀ c, Matches rest (readTextField .text (gap ++ (b :: tail ++ rest)))
      (.error c : Except Cause String) := by
    intro hne c
    unfold readTextField
    rw [hskip]
    split
    · next more he => exact absurd (List.cons.inj he).1 hne
    · exact matches_refuse _ _ c
  cases hb with
  | text s =>
    rw [Spells] at h
    obtain ⟨label, hlabel, hown⟩ := h
    obtain rfl := (List.cons.inj hown).2
    unfold readTextField
    rw [hskip]
    change Matches rest (readText (tail ++ rest)) (.ok s)
    rw [takes_readText hlabel rest]
    exact .ok s
  | whole n b hb => exact hother (ne_of_startsNumber hb (by decide)) _
  | real x b hb => exact hother (ne_of_startsNumber hb (by decide)) _
  | bool b => cases b <;> exact hother (by decide) _
  | null | list | object => exact hother (by decide) _

/-- A number is converted, whatever else is refused. -/
private theorem readNumberField_number {wanted : Wanted} {convert : Number → Except Cause α}
    {n : Number} (h : Spells n.toValue own) (hgap : Blank gap) (hr : EndsNumber rest) :
    Matches rest (readNumberField wanted convert (gap ++ (own ++ rest))) (convert n) := by
  have hskip := skipBlanks_spells h hgap rest
  have hread := readNumber_spells h hr
  obtain ⟨b, more, hown, hb⟩ := startsNumber_of_readNumber hread
  unfold readNumberField
  rw [hskip, hown]
  rw [hown] at hread
  simp only [if_pos hb, hread, bind, Except.bind]
  exact matches_orFault _ _

private theorem readNumberField_other {wanted : Wanted} {convert : Number → Except Cause α}
    {b : UInt8} {tail : Bytes} (h : Spells v (b :: tail)) (hb : startsNumber b = false)
    (hgap : Blank gap) (c : Cause) :
    Matches rest (readNumberField wanted convert (gap ++ (b :: tail ++ rest))) (.error c) := by
  have hskip := skipBlanks_spells h hgap rest
  unfold readNumberField
  rw [hskip, List.cons_append]
  simp only [hb, Bool.false_eq_true, if_false]
  exact matches_refuse _ _ c

theorem readCount_spells (h : Spells v own) (hgap : Blank gap) (hr : EndsNumber rest) :
    Matches rest (readNumberField .count countOfNumber (gap ++ (own ++ rest)))
    (countOfValue v) := by
  obtain ⟨b, tail, rfl, hb⟩ := starts_of_spells h
  cases hb with
  | whole n => exact readNumberField_number (n := .whole n) h hgap hr
  | real x => exact readNumberField_number (n := .real x) h hgap hr
  | bool b => cases b <;> exact readNumberField_other h (by decide) hgap _
  | null | text | list | object => exact readNumberField_other h (by decide) hgap _

theorem readReal_spells (h : Spells v own) (hgap : Blank gap) (hr : EndsNumber rest) :
    Matches rest (readNumberField .frequency (fun n => .ok (realOfNumber n)) (gap ++ (own ++ rest)))
      (realOfValue v) := by
  obtain ⟨b, tail, rfl, hb⟩ := starts_of_spells h
  cases hb with
  | whole n => exact readNumberField_number (n := .whole n) h hgap hr
  | real x => exact readNumberField_number (n := .real x) h hgap hr
  | bool b => cases b <;> exact readNumberField_other h (by decide) hgap _
  | null | text | list | object => exact readNumberField_other h (by decide) hgap _

/-- Only `null` starts with the letter n. -/
theorem readOptional_spells {read : Bytes → Except Fault (α × Bytes)}
    {convert : Value → Except Cause α} (h : Spells v own) (hgap : Blank gap)
    (hread : v ≠ .null → Matches rest (read (own ++ rest)) (convert v)) :
    Matches rest (readOptional read (gap ++ (own ++ rest))) (optionalOfValue convert v) := by
  have hskip := skipBlanks_spells h hgap rest
  by_cases hnull : v = .null
  · subst hnull
    rw [Spells] at h
    subst h
    unfold readOptional
    rw [hskip]
    exact .ok none
  · have hread := (hread hnull).map some
    rw [Kind.optionalOfValue_of_ne convert hnull]
    obtain ⟨b, tail, rfl, hb⟩ := starts_of_spells h
    have hletter : b ≠ 110 := by
      cases hb with
      | null => exact absurd rfl hnull
      | whole n b hb => exact ne_of_startsNumber hb (by decide)
      | real x b hb => exact ne_of_startsNumber hb (by decide)
      | bool b => cases b <;> decide
      | text | list | object => decide
    unfold readOptional
    rw [hskip]
    split
    · next more he => exact absurd (List.cons.inj he).1 hletter
    · exact hread

/-- Where a tag is not written as an object, it is its name. -/
theorem readTag_spells (h : Spells v own) (hplain : ∀ members, v ≠ .object members) :
    Matches rest (readTag depth (own ++ rest)) (tagOfValue v) := by
  have hskip := skipBlanks_spells h blank_nil rest
  rw [List.nil_append] at hskip
  obtain ⟨b, tail, rfl, hb⟩ := starts_of_spells h
  have hother : b ≠ 34 → b ≠ 123 → ∀ c, Matches rest (readTag depth (b :: tail ++ rest))
      (.error c : Except Cause Tag) := by
    intro hquote hbrace c
    unfold readTag
    rw [hskip]
    split
    · exact .error _ c
    · next more he => exact absurd (List.cons.inj he).1 hquote
    · next more he => exact absurd (List.cons.inj he).1 hbrace
    · exact .error _ c
  cases hb with
  | text s =>
    rw [Spells] at h
    obtain ⟨label, hlabel, hown⟩ := h
    obtain rfl := (List.cons.inj hown).2
    unfold readTag
    rw [hskip]
    change Matches rest ((readText (tail ++ rest)).bind fun p => orFault (tagOfName p.1) p.2) _
    rw [takes_readText hlabel rest]
    exact matches_orFault _ _
  | whole n b hb =>
    exact hother (ne_of_startsNumber hb (by decide)) (ne_of_startsNumber hb (by decide)) _
  | real x b hb =>
    exact hother (ne_of_startsNumber hb (by decide)) (ne_of_startsNumber hb (by decide)) _
  | bool b => cases b <;> exact hother (by decide) (by decide) _
  | null | list => exact hother (by decide) (by decide) _
  | object members => exact absurd rfl (hplain members)

/-- A field is read from the text of a value as it is taken from the value. -/
theorem Kind.read_spells {k : Kind} (h : Spells v own) (hgap : Blank gap) (hr : EndsNumber rest)
    (hd : v.depth < depth) (hplain : k = .tag → ∀ members, v ≠ .object members) :
    Matches rest (k.read depth (gap ++ (own ++ rest))) (k.ofValue v) := by
  cases k with
  | label => exact readTextField_spells h hgap
  | transaction => exact readCount_spells h hgap hr
  | tag => exact readOptional_spells h hgap fun _ => readTag_spells h (hplain rfl)
  | code => exact (readTextField_spells h hgap).map _
  | text => exact readOptional_spells h hgap fun _ => readTextField_spells h blank_nil
  | count => exact readOptional_spells h hgap fun _ => readCount_spells h blank_nil hr
  | frequency => exact readOptional_spells h hgap fun _ => readReal_spells h blank_nil hr
  | value =>
    refine readOptional_spells h hgap fun _ => ?_
    have hread := readValue_spells h blank_nil hd hr
    rw [List.nil_append] at hread
    rw [hread]
    exact .ok v.sorted

end Contents

/-! ### Records -/

section Records

variable {fs : List Field} {rest : Bytes} {depth : Nat}

/-- How a field is filled from a text and from a value: by both, by neither as there is no such
field, or both refuse. -/
inductive Fills (rest : Bytes) : Except Fault (Option (Draft fs × Bytes)) →
    Except Cause (Option (Draft fs × Unit)) → Prop where
  | filled (draft : Draft fs) : Fills rest (.ok (some (draft, rest))) (.ok (some (draft, ())))
  | foreign : Fills rest (.ok none) (.ok none)
  | refused (e : Fault) (c : Cause) : Fills rest (.error e) (.error c)

theorem fills_of_matches {name : String} {e : Fault} {c : Cause}
    {read : (k : Kind) → Except Fault (k.Slot × Bytes)} {convert : (k : Kind) → Except Cause k.Slot}
    (draft : Draft fs) (h : ∀ f ∈ fs, f.name = name → Matches rest (read f.kind) (convert f.kind)) :
    Fills rest (Draft.fill? name e read fs draft)
      (Draft.fill? name c (fun k => (convert k).map fun s => (s, ())) fs draft) := by
  induction fs with
  | nil => exact .foreign
  | cons f fs ih =>
    obtain ⟨slot, draft⟩ := draft
    by_cases hname : f.name = name
    · simp only [Draft.fill?, if_pos hname]
      cases slot with
      | some s => exact .refused e c
      | none =>
        have hread := h f List.mem_cons_self hname
        generalize read f.kind = r at hread ⊢
        generalize convert f.kind = t at hread ⊢
        cases hread with
        | ok s => exact .filled _
        | error e c => exact .refused e c
    · have hrest := ih draft fun g hg => h g (List.mem_cons_of_mem _ hg)
      simp only [Draft.fill?, if_neg hname]
      generalize Draft.fill? name e read fs draft = r at hrest ⊢
      generalize Draft.fill? name c _ fs draft = t at hrest ⊢
      cases hrest with
      | filled draft => exact .filled _
      | foreign => exact .foreign
      | refused e c => exact .refused e c

/-- How a member of a record stands in a text: it can be passed over, and that of a field is the
text of its value. -/
def FieldStands (fs : List Field) (depth : Nat) (p : String × Value) (m : Member) : Prop :=
  m.name = p.1 ∧ Passable m.text ∧
    (p.1 ∈ fs.map Field.name → Spells p.2 m.text ∧ p.2.depth < depth)

theorem fieldStands_of_spells {members : List (String × Value)} {laid : List Member}
    (h : SpellsMembers members laid) (hd : Value.depthMembers members < depth) :
    List.Forall₂ (FieldStands fs depth) members laid := by
  induction members generalizing laid with
  | nil =>
    rw [SpellsMembers] at h
    exact h ▸ .nil
  | cons p members ih =>
    obtain ⟨name, v⟩ := p
    rw [SpellsMembers] at h
    obtain ⟨m, laid, rfl, hname, hv, hmembers⟩ := h
    rw [Value.depthMembers] at hd
    exact .cons ⟨hname, hv.passable, fun _ => ⟨hv, show v.depth < depth by omega⟩⟩
      (ih hmembers (by omega))

/-- Whether no tag among these members is written as an object. -/
def PlainTags (fs : List Field) (members : List (String × Value)) : Prop :=
  ∀ p ∈ members, ∀ f ∈ fs, f.name = p.1 → f.kind = .tag → ∀ inner, p.2 ≠ .object inner

theorem plainTags_of_no_tag (h : ∀ f ∈ fs, f.kind ≠ .tag) (members : List (String × Value)) :
    PlainTags fs members :=
  fun _ _ f hf _ hk => absurd hk (h f hf)

/-- The induction is on the members; what was filled before stands in the draft. -/
theorem readFields_laid {members : List (String × Value)} {laid : List Member} {inner more : Bytes}
    {fuel : Nat} {first : Bool} (draft : Draft fs)
    (h : List.Forall₂ (FieldStands fs depth) members laid) (hl : Laid first laid inner)
    (hplain : PlainTags fs members) (hf : inner.length < fuel) :
    Matches (125 :: more) (readFields fs depth fuel first draft (inner ++ 125 :: more))
      (members.foldlM (fillWith fs) draft) := by
  obtain ⟨fuel, rfl⟩ : ∃ f, fuel = f + 1 := ⟨fuel - 1, by omega⟩
  induction h generalizing inner fuel first draft with
  | nil =>
    have hnext : nextName first (inner ++ 125 :: more) = .ok (.finish (125 :: more)) :=
      nextName_end hl more
    simp only [readFields, hnext]
    exact .ok draft
  | @cons p m members laid hm _ ih =>
    obtain ⟨name, v⟩ := p
    obtain ⟨rfl, hpass, hfield⟩ := hm
    obtain ⟨gap, label, colon, tail, hgap, hlabel, hcolon, htail, rfl⟩ := hl
    simp only [List.length_append, List.length_cons] at hf
    obtain ⟨fuel, rfl⟩ : ∃ f, fuel = f + 1 := ⟨fuel - 1, by omega⟩
    obtain ⟨back, hback, hcolon⟩ := readColon_append hcolon (m.text ++ (tail ++ 125 :: more))
    have hends := endsNumber_laid htail more
    have hfill : Fills (tail ++ 125 :: more)
        (Draft.fill? m.name
          (.loose (.duplicateField m.name) (colon ++ (m.text ++ (tail ++ 125 :: more))))
          (fun k => k.read depth (back ++ (m.text ++ (tail ++ 125 :: more)))) fs draft)
        (Draft.fill? m.name (.duplicateField m.name)
          (fun k => (k.ofValue v).map fun s => (s, ())) fs draft) := by
      refine fills_of_matches draft fun f hf hname => ?_
      obtain ⟨hv, hd⟩ := hfield (List.mem_map.mpr ⟨f, hf, hname⟩)
      exact Kind.read_spells hv hback hends hd (hplain _ List.mem_cons_self f hf hname)
    have hplain' : PlainTags fs members := fun p hp => hplain p (List.mem_cons_of_mem _ hp)
    have hrest : ∀ draft, Matches (125 :: more)
        (readFields fs depth (fuel + 1) false draft (tail ++ 125 :: more))
        (members.foldlM (fillWith fs) draft) := fun draft => ih draft htail hplain' fuel (by omega)
    rw [List.foldlM_cons, readFields]
    simp only [List.append_assoc, List.cons_append, nextName_before hgap,
      takes_readText hlabel _, hcolon, fillWith, bind, Except.bind, pure, Except.pure]
    generalize Draft.fill? m.name (Fault.loose _ _) _ fs draft = r at hfill ⊢
    generalize Draft.fill? m.name (Cause.duplicateField m.name) _ fs draft = t at hfill ⊢
    cases hfill with
    | filled draft => exact hrest draft
    | foreign =>
      have hskip := hpass.skipValue_append hback hends
      simp only [hskip]
      exact hrest draft
    | refused e c => exact .error e c

/-- The row whose contents are these values in order; where they come to an end, the
rest is absent. -/
def Row.ofItems : (fs : List Field) → List Value → Except Cause (Row fs)
  | [], [] => .ok ()
  | [], _ :: _ => .error .trailingCharacters
  | f :: fs, [] => do
    match f.kind.absent? with
    | none => throw (.missingField f.name)
    | some s => return (s, ← Row.ofItems fs [])
  | f :: fs, v :: items => do return (← f.kind.ofValue v, ← Row.ofItems fs items)

private theorem matches_enclosed_map {α β : Type} {leave : Bytes → Except Fault Bytes}
    {after : Bytes → Bytes} {r : Except Fault (α × Bytes)} {c : Except Cause α} (f : α → β)
    (h : Matches rest (enclosed leave after r) c) :
    Matches rest (enclosed leave after (r.map fun p => (f p.1, p.2))) (c.map f) := by
  cases r with
  | error e =>
    cases h with
    | error e c => exact .error _ c
  | ok p =>
    have hmap := h.map f
    change Matches rest (((leave p.2).map fun rest => (p.1, rest)).map _) _ at hmap
    change Matches rest ((leave p.2).map fun rest => (f p.1, rest)) _
    cases hleave : leave p.2 with
    | ok left =>
      rw [hleave] at hmap
      exact hmap
    | error e =>
      rw [hleave] at hmap
      exact hmap

/-- Behind items there is more to a list than its end. -/
private theorem leaveList_items (rest : Bytes) {v : Value} {items : List Value} {owns : List Bytes}
    {inner : Bytes} {first : Bool} (h : SpellsItems (v :: items) owns)
    (hl : Listed first owns inner) : ∃ e, leaveList (inner ++ 93 :: rest) = .error e := by
  rw [SpellsItems] at h
  obtain ⟨own, owns, rfl, hv, -⟩ := h
  obtain ⟨gap, more, hgap, -, rfl⟩ := hl
  obtain ⟨b, tail, rfl, hb, hend⟩ := startsValue_of_spells hv
  cases first with
  | true =>
    have hblank : Blank gap := hgap
    have hskip := skipBlanks_cons hb (tail ++ more ++ 93 :: rest)
    unfold leaveList
    rw [List.append_assoc, skipBlanks_append hblank, List.cons_append, List.cons_append, hskip]
    split
    · exact ⟨_, rfl⟩
    · next he => exact absurd (List.cons.inj he).1 hend
    · split <;> exact ⟨_, rfl⟩
    · exact ⟨_, rfl⟩
  | false =>
    obtain ⟨front, back, hfront, hback, rfl⟩ := hgap
    unfold leaveList
    simp only [List.append_assoc, List.cons_append, skipBlanks_append hfront, skipBlanks_comma]
    split <;> exact ⟨_, rfl⟩

/-- The induction is on the fields, with the items that are left for them. -/
theorem readPositions_listed {title : String} {count : Nat} (index : Nat) {items : List Value}
    {owns : List Bytes} {inner more : Bytes} {first : Bool} (h : SpellsItems items owns)
    (hl : Listed first owns inner) (hplain : ∀ f ∈ fs, f.kind ≠ .tag)
    (hd : Value.depthAll items < depth) :
    Matches more (enclosed leaveList afterList
      (readPositions title count depth fs index first (inner ++ 93 :: more)))
      (Row.ofItems fs items) := by
  induction fs generalizing items owns inner first index with
  | nil =>
    cases items with
    | nil =>
      rw [SpellsItems] at h
      subst h
      have hleave : leaveList (inner ++ 93 :: more) = .ok more := leaveList_append hl more
      simp only [readPositions, enclosed, hleave]
      exact .ok ()
    | cons v items =>
      obtain ⟨e, hleave⟩ := leaveList_items more h hl
      simp only [readPositions, enclosed, hleave]
      exact .error e _
  | cons f fs ih =>
    have hplain' : ∀ g ∈ fs, g.kind ≠ .tag := fun g hg => hplain g (List.mem_cons_of_mem _ hg)
    cases items with
    | nil =>
      rw [SpellsItems] at h
      subst h
      have hnext : nextItem first (inner ++ 93 :: more) = .ok (.finish (93 :: more)) :=
        nextItem_end hl more
      have hnone : SpellsItems [] [] := by rw [SpellsItems]
      have hlisted : Listed first [] [] := blank_nil
      have hrest := ih (index + 1) hnone hlisted hplain' hd
      simp only [readPositions, hnext, Row.ofItems, bind, Except.bind]
      cases f.kind.absent? with
      | none => exact .error _ _
      | some s => exact matches_enclosed_map (fun row => ((s, row) : Row (f :: fs))) hrest
    | cons v items =>
      rw [SpellsItems] at h
      obtain ⟨own, owns, rfl, hv, hitems⟩ := h
      obtain ⟨gap, tail, hgap, htail, rfl⟩ := hl
      rw [Value.depthAll] at hd
      have hstart := startsValue_of_spells hv
      have hread := Kind.read_spells hv blank_nil (endsNumber_listed htail more)
        (show v.depth < depth by omega) fun hk => absurd hk (hplain f List.mem_cons_self)
      have hrest := ih (index + 1) hitems htail hplain' (by omega)
      rw [List.nil_append] at hread
      simp only [List.append_assoc, readPositions, nextItem_before hgap (hstart.append _),
        Row.ofItems, bind, Except.bind]
      generalize f.kind.read depth _ = r at hread ⊢
      generalize f.kind.ofValue v = t at hread ⊢
      cases hread with
      | ok s => exact matches_enclosed_map (fun row => ((s, row) : Row (f :: fs))) hrest
      | error e c => exact .error _ c

namespace Schema

/-- Takes a record from the value that it is written as. -/
def ofValue (s : Schema) : Value → Except Cause (Row s.fields)
  | .object members => s.ofMembers members
  | .list items => Row.ofItems s.fields items
  | v => .error (.wrongType v.found (.record s.title))

variable {s : Schema} {v : Value} {own gap : Bytes}

/-- How a record stands in a text: as a value does, or as an object in whose other members there may
be anything that is passed over. -/
inductive Writes (s : Schema) (depth : Nat) : Value → Bytes → Prop where
  | value {v : Value} {own : Bytes} (h : Spells v own) (hd : v.depth < depth) : Writes s depth v own
  | object {members : List (String × Value)} {laid : List Member} {inner : Bytes} (hd : 1 < depth)
      (h : List.Forall₂ (FieldStands s.fields (depth - 1)) members laid)
      (hl : Laid true laid inner) : Writes s depth (.object members) (123 :: (inner ++ [125]))

/-- A record is read from the text of an object as it is taken from its members. -/
theorem read_object {members : List (String × Value)} {laid : List Member} {inner : Bytes}
    (rest : Bytes) (h : List.Forall₂ (FieldStands s.fields (depth - 1)) members laid)
    (hl : Laid true laid inner) (hgap : Blank gap) (hd : 1 < depth)
    (hplain : PlainTags s.fields members) :
    Matches rest (s.read depth (gap ++ (123 :: (inner ++ [125]) ++ rest)))
    (s.ofMembers members) := by
  have hskip : skipBlanks (123 :: (inner ++ 125 :: rest)) = 123 :: (inner ++ 125 :: rest) := rfl
  have hfields : Matches (125 :: rest)
      (readFields s.fields (depth - 1) (rounds (inner ++ 125 :: rest)) true (Draft.empty s.fields)
        (inner ++ 125 :: rest))
      (members.foldlM (fillWith s.fields) (Draft.empty s.fields)) :=
    readFields_laid _ h hl hplain (by simp only [rounds, List.length_append]; omega)
  unfold read
  simp only [List.cons_append, List.append_assoc, List.nil_append, skipBlanks_append hgap, hskip,
    if_neg (show ¬ depth ≤ 1 by omega)]
  rw [ofMembers_eq_fold]
  generalize readFields s.fields _ _ _ _ _ = r at hfields ⊢
  generalize members.foldlM (fillWith s.fields) (Draft.empty s.fields) = t at hfields ⊢
  cases hfields with
  | error e c => exact .error _ c
  | ok draft =>
    simp only [bind, Except.bind]
    cases draft.complete with
    | ok row => exact .ok row
    | error c => exact .error _ c

/-- A record without a tag is read from the text of any value as it is taken from the value. -/
theorem read_spells (rest : Bytes) (h : Spells v own) (hgap : Blank gap) (hd : v.depth < depth)
    (hplain : ∀ f ∈ s.fields, f.kind ≠ .tag) :
    Matches rest (s.read depth (gap ++ (own ++ rest))) (s.ofValue v) := by
  have hskip := skipBlanks_spells h hgap rest
  obtain ⟨b, tail, hown, hb⟩ := starts_of_spells h
  have hother : b ≠ 91 → b ≠ 123 → ∀ c, Matches rest (s.read depth (gap ++ (own ++ rest)))
      (.error c : Except Cause (Row s.fields)) := by
    intro hbracket hbrace c
    unfold read
    rw [hskip, hown]
    split
    · next more he => exact absurd (List.cons.inj he).1 hbracket
    · next more he => exact absurd (List.cons.inj he).1 hbrace
    · exact matches_refuse _ _ c
  cases hb with
  | object members =>
    rw [Spells] at h
    obtain ⟨laid, inner, hspells, hlaid, rfl⟩ := h
    rw [Value.depth] at hd
    exact read_object rest (fieldStands_of_spells hspells (by omega)) hlaid hgap (by omega)
      (plainTags_of_no_tag hplain members)
  | list items =>
    rw [Spells] at h
    obtain ⟨owns, inner, hspells, hlisted, rfl⟩ := h
    rw [Value.depth] at hd
    unfold read
    rw [hskip]
    simp only [List.cons_append, List.append_assoc, List.nil_append,
      if_neg (show ¬ depth ≤ 1 by omega)]
    exact readPositions_listed 0 hspells hlisted hplain (by omega)
  | whole n b hb =>
    exact hother (ne_of_startsNumber hb (by decide)) (ne_of_startsNumber hb (by decide)) _
  | real x b hb =>
    exact hother (ne_of_startsNumber hb (by decide)) (ne_of_startsNumber hb (by decide)) _
  | bool b => cases b <;> exact hother (by decide) (by decide) _
  | null | text => exact hother (by decide) (by decide) _

theorem Writes.read (h : s.Writes depth v own) (hgap : Blank gap)
    (hplain : ∀ f ∈ s.fields, f.kind ≠ .tag) (rest : Bytes) :
    Matches rest (s.read depth (gap ++ (own ++ rest))) (s.ofValue v) := by
  cases h with
  | value h hd => exact read_spells rest h hgap hd hplain
  | object hd h hl => exact read_object rest h hl hgap hd (plainTags_of_no_tag hplain _)

end Schema

end Records

end Roaming
