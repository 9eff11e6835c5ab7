import Roaming.Proofs.Members

/-!
# What the payload decoders accept

A payload is decoded member by member: it is accepted if no name that it knows stands twice and
the text of each member it knows is acceptable for its own field (`Denotes`), whatever else
stands in the object and in whichever order. Each field is then what its own member denotes, or
what an absent one is.
-/

set_option autoImplicit false
set_option relaxedAutoImplicit false

namespace Roaming

open Roaming.Text (Bytes utf8)
open Roaming.Json

/-- Whether bytes are the text of one value and of nothing else, which may stand in an object within
the limits on depth and numbers. -/
def Json.IsValueText (own : Bytes) : Prop :=
  skipBlanks own = own ∧ ∃ v, readValue (maxDepth - 1) own = .ok (v, [])

/-- Whether a text is that of an object with these members. -/
def Json.ObjectText (members : List Member) (text : Bytes) : Prop :=
  ∃ front inner back, Blank front ∧ Blank back ∧ Laid true members inner ∧
    (∀ m ∈ members, IsValueText m.text) ∧ text = front ++ 123 :: (inner ++ 125 :: back)

/-- What a text of a value, looked at by itself, stands for in a field of some kind. A number of 32
bits must be written in its decimal digits. -/
inductive Denotes (own : Bytes) : (k : Kind) → k.Slot → Prop where
  | label (s : String) (h : Value.parse own = .ok (.text s)) : Denotes own .label s
  | transaction (n : UInt32) (h : own = utf8 (toString n.toNat)) : Denotes own .transaction n
  | noTag (h : Value.parse own = .ok .null) : Denotes own .tag none
  | tag (t : Tag) (h : Value.parse own = .ok (.text t.name)) : Denotes own .tag (some t)
  | code (s : String) (h : Value.parse own = .ok (.text s)) : Denotes own .code (.ofText s)
  | noText (h : Value.parse own = .ok .null) : Denotes own .text none
  | text (s : String) (h : Value.parse own = .ok (.text s)) : Denotes own .text (some s)
  | noCount (h : Value.parse own = .ok .null) : Denotes own .count none
  | count (n : UInt32) (h : own = utf8 (toString n.toNat)) : Denotes own .count (some n)
  | noFrequency (h : Value.parse own = .ok .null) : Denotes own .frequency none
  | integer (n : Whole) (h : Value.parse own = .ok (.whole n)) :
      Denotes own .frequency (some (realOfNumber (.whole n)))
  | frequency (x : Float) (h : Value.parse own = .ok (.real x)) : Denotes own .frequency (some x)
  | noValue (h : Value.parse own = .ok .null) : Denotes own .value none
  | value (v : Value) (h : Value.parse own = .ok v) (hne : v ≠ .null) :
      Denotes own .value (some v.sorted)

/-- What the field of a member holds that is not there. -/
inductive Absent : (k : Kind) → k.Slot → Prop where
  | label : Absent .label ""
  | transaction : Absent .transaction 0
  | tag : Absent .tag none
  | text : Absent .text none
  | count : Absent .count none
  | frequency : Absent .frequency none
  | value : Absent .value none

/-- Whether a field holds what its own member denotes, or what an absent one is. -/
def Given (members : List Member) (f : Field) (s : f.kind.Slot) : Prop :=
  (∃ m ∈ members, m.name = f.name ∧ Denotes m.text f.kind s) ∨
    (∀ m ∈ members, m.name ≠ f.name) ∧ Absent f.kind s

/-- Whether a result is what its own member decodes to, or the failure without code and
description. -/
def GivenResult (members : List Member) (result : Result) : Prop :=
  (∃ m ∈ members, m.name = "Result" ∧ Result.schema.parse m.text = .ok result.toRow) ∨
    (∀ m ∈ members, m.name ≠ "Result") ∧ result = ⟨.other "", ""⟩

/-- Whether no more than one member has this name, and something holds of its text. -/
def Fits (members : List Member) (name : String) (acceptable : Bytes → Prop) : Prop :=
  (members.map Member.name).count name ≤ 1 ∧ ∀ m ∈ members, m.name = name → acceptable m.text

/-! ### Objects -/

section Objects

variable {members : List Member} {values : List (String × Value)} {text : Bytes}

theorem Json.Spells.isValueText {v : Value} {own : Bytes} (h : Spells v own)
    (hd : v.depth < maxDepth - 1) : IsValueText own :=
  ⟨(startsValue_of_spells h).skipBlanks, v, h.readValue_eq hd⟩

theorem Json.IsValueText.spells {own : Bytes} (h : IsValueText own) :
    ∃ v, Spells v own ∧ v.depth < maxDepth - 1 := by
  obtain ⟨htight, v, hread⟩ := h
  obtain ⟨gap, own', hgap, hspells, hd, rfl⟩ := spells_of_readValue (by decide) hread
  have hskip := skipBlanks_append hgap own'
  rw [htight, (startsValue_of_spells hspells).skipBlanks] at hskip
  rw [hskip]
  exact ⟨v, hspells, hd⟩

private theorem exists_values (h : ∀ m ∈ members, IsValueText m.text) :
    ∃ values, SpellsMembers values members ∧ Value.depthMembers values < maxDepth - 1 := by
  induction members with
  | nil => exact ⟨[], by rw [SpellsMembers], by decide⟩
  | cons m members ih =>
    obtain ⟨v, hv, hd⟩ := (h m List.mem_cons_self).spells
    obtain ⟨values, hvalues, hd'⟩ := ih fun m' hm' => h m' (List.mem_cons_of_mem _ hm')
    refine ⟨(m.name, v) :: values, ?_, ?_⟩
    · rw [SpellsMembers]
      exact ⟨m, members, rfl, rfl, hv, hvalues⟩
    · rw [Value.depthMembers]
      omega

private theorem isValueText_of_spellsMembers (h : SpellsMembers values members)
    (hd : Value.depthMembers values < maxDepth - 1) : ∀ m ∈ members, IsValueText m.text := by
  induction values generalizing members with
  | nil =>
    rw [SpellsMembers] at h
    subst h
    simp
  | cons p values ih =>
    obtain ⟨name, v⟩ := p
    rw [SpellsMembers] at h
    obtain ⟨m, more, rfl, -, hv, hmore⟩ := h
    rw [Value.depthMembers] at hd
    intro m' hm'
    rcases List.mem_cons.mp hm' with rfl | hm'
    · exact hv.isValueText (by omega)
    · exact ih hmore (by omega) m' hm'

/-- The texts that are read as an object are those that are laid out as one. -/
theorem Json.parse_object_iff :
    (∃ values, Value.parse text = .ok (.object values)) ↔ ∃ members, ObjectText members text := by
  constructor
  · rintro ⟨values, hparse⟩
    obtain ⟨front, own, back, hfront, hback, hspells, hd, rfl⟩ := exists_spells_of_parse hparse
    rw [Spells] at hspells
    obtain ⟨members, inner, hmembers, hlaid, rfl⟩ := hspells
    rw [Value.depth] at hd
    exact ⟨members, front, inner, back, hfront, hback, hlaid,
      isValueText_of_spellsMembers hmembers (by omega), by simp⟩
  · rintro ⟨members, front, inner, back, hfront, hback, hlaid, hvalues, rfl⟩
    obtain ⟨values, hmembers, hd⟩ := exists_values hvalues
    have hspells : Spells (.object values) (123 :: (inner ++ [125])) := by
      rw [Spells]
      exact ⟨members, inner, hmembers, hlaid, rfl⟩
    have hparse := hspells.parse_append
      (show (Value.object values).depth < maxDepth by rw [Value.depth]; omega) hfront hback
    simp only [List.cons_append, List.append_assoc, List.nil_append] at hparse
    exact ⟨values, hparse⟩

end Objects

/-! ### Contents -/

section Contents

variable {own : Bytes} {v : Value}

private theorem digits_of_count {n : UInt32} :
    Spells (.whole (.ofCount n)) own ↔ own = utf8 (toString n.toNat) := by
  rw [Spells]
  constructor
  · intro h
    have hdigits := eq_digits_of_readNumber h (by simp [Whole.ofCount])
    rwa [List.append_nil] at hdigits
  · rintro rfl
    exact readNumber_whole (.ofCount n)

private theorem eq_whole_of_countOfValue {n : UInt32} (h : countOfValue v = .ok n) :
    v = .whole (.ofCount n) := by
  cases v with
  | whole w =>
    change countOfNumber (.whole w) = .ok n at h
    unfold countOfNumber at h
    simp only at h
    split at h
    · next hrange =>
      obtain rfl := Except.ok.inj h
      have hval : ((w.val.toNat.toUInt32).toNat : Int) = w.val := by
        have hlt : w.val.toNat < 4294967296 := by
          simp only [maxCount] at hrange
          omega
        simp only [Nat.toUInt32, UInt32.toNat_ofNat']
        omega
      obtain ⟨val, low, high⟩ := w
      simp only [Whole.ofCount, hval]
    · cases h
  | null | bool | real | text | list | object => cases h

private theorem eq_name_of_tagOfName {name : String} {t : Tag} (h : tagOfName name = .ok t) :
    name = t.name := by
  unfold tagOfName at h
  split at h
  · next t' hfound =>
    obtain rfl := Except.ok.inj h
    have hname := List.find?_some hfound
    exact (beq_iff_eq.mp hname).symm
  · cases h

private theorem eq_text_of_textOfValue {s : String} (h : textOfValue v = .ok s) : v = .text s := by
  cases v with
  | text t => exact congrArg Value.text (Except.ok.inj h)
  | null | bool | whole | real | list | object => cases h

/-- What a text denotes is taken from its value. -/
private theorem Denotes.ofValue {k : Kind} {s : k.Slot} (h : Denotes own k s)
    (hparse : Value.parse own = .ok v) : k.ofValue v = .ok s := by
  have hvalue : ∀ {w}, Value.parse own = .ok w → v = w := fun hw =>
    Except.ok.inj (hparse.symm.trans hw)
  have hdigits : ∀ {n : UInt32}, own = utf8 (toString n.toNat) → v = .whole (.ofCount n) := by
    intro n hown
    exact hvalue ((digits_of_count.mpr hown).parse_eq (by rw [Value.depth]; decide))
  cases h with
  | label s hs => rw [hvalue hs]; rfl
  | transaction n hn =>
    rw [hdigits hn]
    exact Kind.countOfNumber_ofCount n
  | noTag hs => rw [hvalue hs]; rfl
  | tag t ht =>
    rw [hvalue ht]
    change (tagOfName t.name).map some = _
    rw [Kind.tagOfName_name]
    rfl
  | code s hs => rw [hvalue hs]; rfl
  | noText hs => rw [hvalue hs]; rfl
  | text s hs => rw [hvalue hs]; rfl
  | noCount hs => rw [hvalue hs]; rfl
  | count n hn =>
    rw [hdigits hn]
    change (countOfNumber (.whole (.ofCount n))).map some = _
    rw [Kind.countOfNumber_ofCount]
    rfl
  | noFrequency hs => rw [hvalue hs]; rfl
  | integer n hn => rw [hvalue hn]; rfl
  | frequency x hx => rw [hvalue hx]; rfl
  | noValue hs => rw [hvalue hs]; rfl
  | value w hw hne =>
    rw [hvalue hw]
    exact Kind.optionalOfValue_of_ne (fun v => .ok v.sorted) hne

/-- What is taken from a value is denoted by its text, unless it is a tag written as an object. -/
private theorem denotes_of_ofValue {k : Kind} {s : k.Slot} (h : Spells v own)
    (hparse : Value.parse own = .ok v) (hplain : k = .tag → ∀ members, v ≠ .object members)
    (hof : k.ofValue v = .ok s) : Denotes own k s := by
  cases k with
  | label => exact .label s (eq_text_of_textOfValue hof ▸ hparse)
  | transaction =>
    refine .transaction s (digits_of_count.mp ?_)
    rw [← eq_whole_of_countOfValue hof]
    exact h
  | tag =>
    obtain ⟨rfl, rfl⟩ | ⟨hnull, t, ht, rfl⟩ := Kind.eq_some_of_optionalOfValue hof
    · exact .noTag hparse
    · cases v with
      | text name =>
        obtain rfl := eq_name_of_tagOfName ht
        exact .tag t hparse
      | object members => exact absurd rfl (hplain rfl members)
      | null | bool | whole | real | list => cases ht
  | code =>
    cases v with
    | text t =>
      obtain rfl := Except.ok.inj hof
      exact .code t hparse
    | null | bool | whole | real | list | object => cases hof
  | text =>
    obtain ⟨rfl, rfl⟩ | ⟨hnull, t, ht, rfl⟩ := Kind.eq_some_of_optionalOfValue hof
    · exact .noText hparse
    · exact .text t (eq_text_of_textOfValue ht ▸ hparse)
  | count =>
    obtain ⟨rfl, rfl⟩ | ⟨hnull, n, hn, rfl⟩ := Kind.eq_some_of_optionalOfValue hof
    · exact .noCount hparse
    · refine .count n (digits_of_count.mp ?_)
      rw [← eq_whole_of_countOfValue hn]
      exact h
  | frequency =>
    obtain ⟨rfl, rfl⟩ | ⟨hnull, x, hx, rfl⟩ := Kind.eq_some_of_optionalOfValue hof
    · exact .noFrequency hparse
    · cases v with
      | whole n =>
        obtain rfl := Except.ok.inj hx
        exact .integer n hparse
      | real y =>
        obtain rfl := Except.ok.inj hx
        exact .frequency y hparse
      | null | bool | text | list | object => cases hx
  | value =>
    obtain ⟨rfl, rfl⟩ | ⟨hnull, w, hw, rfl⟩ := Kind.eq_some_of_optionalOfValue hof
    · exact .noValue hparse
    · obtain rfl := Except.ok.inj hw
      exact .value v hparse hnull

/-- What a text denotes in a field is what is taken from its value, unless it is a tag written as an
object. -/
theorem denotes_iff {k : Kind} {s : k.Slot} (h : Spells v own) (hd : v.depth < maxDepth)
    (hplain : k = .tag → ∀ members, v ≠ .object members) :
    Denotes own k s ↔ k.ofValue v = .ok s :=
  ⟨fun hden => hden.ofValue (h.parse_eq hd), denotes_of_ofValue h (h.parse_eq hd) hplain⟩

theorem absent_iff {k : Kind} {s : k.Slot} : Absent k s ↔ k.absent? = some s := by
  constructor
  · rintro (_ | _) <;> rfl
  · intro h
    cases k with
    | code => cases h
    | label => exact Option.some.inj h ▸ .label
    | transaction => exact Option.some.inj h ▸ .transaction
    | tag => exact Option.some.inj h ▸ .tag
    | text => exact Option.some.inj h ▸ .text
    | count => exact Option.some.inj h ▸ .count
    | frequency => exact Option.some.inj h ▸ .frequency
    | value => exact Option.some.inj h ▸ .value

end Contents

/-! ### Members -/

section Members

variable {members : List Member} {values : List (String × Value)}

/-- The members of one name stand for the values of this name. -/
private theorem spellsMembers_named (name : String) (h : SpellsMembers values members) :
    SpellsMembers (named name values) (members.filter fun m => m.name == name) := by
  induction values generalizing members with
  | nil =>
    rw [SpellsMembers] at h
    subst h
    exact SpellsMembers.eq_1 _ ▸ rfl
  | cons p values ih =>
    obtain ⟨own, v⟩ := p
    rw [SpellsMembers] at h
    obtain ⟨m, more, rfl, hname, hv, hmore⟩ := h
    by_cases hown : own = name
    · rw [named_cons_pos (m := (own, v)) hown,
        List.filter_cons_of_pos (by simp [hname, hown]), SpellsMembers]
      exact ⟨m, _, rfl, hname, hv, ih hmore⟩
    · rw [named_cons_neg (m := (own, v)) hown, List.filter_cons_of_neg (by simp [hname, hown])]
      exact ih hmore

private theorem count_eq_length (name : String) : (members.map Member.name).count name =
    (members.filter fun m => m.name == name).length := by
  rw [List.count, List.countP_map, List.countP_eq_length_filter]
  rfl

private theorem depth_le_depthMembers {p : String × Value} (h : p ∈ values) :
    p.2.depth ≤ Value.depthMembers values := by
  induction values with
  | nil => cases h
  | cons q values ih =>
    obtain ⟨name, v⟩ := q
    rw [Value.depthMembers]
    rcases List.mem_cons.mp h with rfl | h
    · exact Nat.le_max_left _ _
    · exact Nat.le_trans (ih h) (Nat.le_max_right _ _)

/-- What holds of the values of one name, told of their texts. -/
private theorem sole_iff {absent : Prop} {taken : Value → Prop} (name : String)
    (given : Bytes → Prop) (h : SpellsMembers values members)
    (hd : Value.depthMembers values < maxDepth - 1)
    (hgiven : ∀ m ∈ members, m.name = name → ∀ v, Spells v m.text → v.depth < maxDepth - 1 →
      (given m.text ↔ taken v)) :
    Sole absent taken (named name values) ↔ (members.map Member.name).count name ≤ 1 ∧
      ((∃ m ∈ members, m.name = name ∧ given m.text) ∨
        (∀ m ∈ members, m.name ≠ name) ∧ absent) := by
  have hnamed := spellsMembers_named name h
  have hmem : ∀ m, m ∈ members.filter (fun m => m.name == name) ↔ m ∈ members ∧ m.name = name := by
    intro m
    rw [List.mem_filter, beq_iff_eq]
  have hdepth : ∀ p ∈ named name values, p.2.depth < maxDepth - 1 := fun p hp =>
    Nat.lt_of_le_of_lt (depth_le_depthMembers (List.mem_filter.mp hp).1) hd
  rw [count_eq_length]
  generalize named name values = ps at hnamed hdepth ⊢
  generalize members.filter (fun m => m.name == name) = ms at hnamed hmem ⊢
  rcases ps with _ | ⟨⟨own, v⟩, ps⟩
  · rw [SpellsMembers] at hnamed
    subst hnamed
    have hnone : ∀ m ∈ members, m.name ≠ name := fun m hm he => by
      have := (hmem m).mpr ⟨hm, he⟩
      cases this
    constructor
    · rintro ⟨habsent⟩
      exact ⟨Nat.zero_le _, .inr ⟨hnone, habsent⟩⟩
    · rintro ⟨-, ⟨m, hm, hname, -⟩ | ⟨-, habsent⟩⟩
      · exact absurd hname (hnone m hm)
      · exact .absent habsent
  · rw [SpellsMembers] at hnamed
    obtain ⟨m, more, rfl, -, hv, hmore⟩ := hnamed
    obtain ⟨hm, hname⟩ := (hmem m).mp List.mem_cons_self
    have hiff := hgiven m hm hname v hv (hdepth (own, v) List.mem_cons_self)
    rcases ps with _ | ⟨⟨own', v'⟩, ps⟩
    · rw [SpellsMembers] at hmore
      subst hmore
      constructor
      · intro hsole
        cases hsole with
        | taken _ htaken => exact ⟨Nat.le_refl _, .inl ⟨m, hm, hname, hiff.mpr htaken⟩⟩
      · rintro ⟨-, ⟨m', hm', hname', hgiven⟩ | ⟨hnone, -⟩⟩
        · obtain rfl := List.mem_singleton.mp ((hmem m').mpr ⟨hm', hname'⟩)
          exact .taken _ (hiff.mp hgiven)
        · exact absurd hname (hnone m hm)
    · rw [SpellsMembers] at hmore
      obtain ⟨m', more, rfl, -⟩ := hmore
      constructor
      · intro hsole
        cases hsole
      · rintro ⟨hcount, -⟩
        simp only [List.length_cons] at hcount
        omega

/-- What a field holds, told of the texts of the members. -/
private theorem holds_iff {f : Field} {s : f.kind.Slot} (h : SpellsMembers values members)
    (hd : Value.depthMembers values < maxDepth - 1)
    (hplain : f.kind = .tag → ∀ m ∈ members, m.name = f.name →
      ∀ inner, Value.parse m.text ≠ .ok (.object inner)) :
    Holds values f s ↔ (members.map Member.name).count f.name ≤ 1 ∧ Given members f s := by
  rw [Holds, Given, absent_iff]
  refine sole_iff f.name (fun own => Denotes own f.kind s) h hd fun m hm hname v hv hdepth =>
    denotes_iff hv (by omega) ?_
  rintro hk inner rfl
  exact hplain hk m hm hname inner (hv.parse_eq (by omega))

private theorem eq_of_count {name : String} (h : (members.map Member.name).count name ≤ 1)
    {m m' : Member} (hm : m ∈ members) (hname : m.name = name) (hm' : m' ∈ members)
    (hname' : m'.name = name) : m = m' := by
  have hmem : ∀ {m}, m ∈ members → m.name = name → m ∈ members.filter fun m => m.name == name :=
    fun hm hname => List.mem_filter.mpr ⟨hm, beq_iff_eq.mpr hname⟩
  have hin := hmem hm hname
  have hin' := hmem hm' hname'
  rw [count_eq_length] at h
  generalize members.filter (fun m => m.name == name) = ms at h hin hin'
  rcases Nat.le_one_iff_eq_zero_or_eq_one.mp h with hnone | hone
  · rw [List.length_eq_zero_iff.mp hnone] at hin
    cases hin
  · obtain ⟨x, rfl⟩ := List.length_eq_one_iff.mp hone
    rw [List.mem_singleton.mp hin, List.mem_singleton.mp hin']

private theorem exists_absent {k : Kind} (hk : k ≠ .code) : ∃ s, Absent k s := by
  cases k with
  | code => exact absurd rfl hk
  | label => exact ⟨_, .label⟩
  | transaction => exact ⟨_, .transaction⟩
  | tag => exact ⟨_, .tag⟩
  | text => exact ⟨_, .text⟩
  | count => exact ⟨_, .count⟩
  | frequency => exact ⟨_, .frequency⟩
  | value => exact ⟨_, .value⟩

/-- There is something to be had from the members of a name if their texts are acceptable. -/
private theorem exists_from_iff {α : Type} {absent : α → Prop} (members : List Member)
    (given : α → Bytes → Prop) (habsent : ∃ a, absent a) (name : String) :
    (∃ a, (members.map Member.name).count name ≤ 1 ∧
      ((∃ m ∈ members, m.name = name ∧ given a m.text) ∨
        (∀ m ∈ members, m.name ≠ name) ∧ absent a)) ↔
      Fits members name fun own => ∃ a, given a own := by
  constructor
  · rintro ⟨a, hcount, ⟨m, hm, hname, hgiven⟩ | ⟨hnone, -⟩⟩
    · refine ⟨hcount, fun m' hm' hname' => ⟨a, ?_⟩⟩
      rw [eq_of_count hcount hm' hname' hm hname]
      exact hgiven
    · exact ⟨hcount, fun m hm hname => absurd hname (hnone m hm)⟩
  · rintro ⟨hcount, hfits⟩
    by_cases hown : ∃ m ∈ members, m.name = name
    · obtain ⟨m, hm, hname⟩ := hown
      obtain ⟨a, ha⟩ := hfits m hm hname
      exact ⟨a, hcount, .inl ⟨m, hm, hname, ha⟩⟩
    · obtain ⟨a, ha⟩ := habsent
      exact ⟨a, hcount, .inr ⟨fun m hm hname => hown ⟨m, hm, hname⟩, ha⟩⟩

/-- What the result is, told of the text of its member. -/
private theorem result_iff {result : Result} (h : SpellsMembers values members)
    (hd : Value.depthMembers values < maxDepth - 1) :
    Sole (result = .missing) (fun v => Result.schema.ofValue v = .ok result.toRow)
        (named "Result" values) ↔
      (members.map Member.name).count "Result" ≤ 1 ∧ GivenResult members result := by
  refine sole_iff "Result" (fun own => Result.schema.parse own = .ok result.toRow) h hd
    fun m hm hname v hv hdepth => ?_
  have hread := Schema.read_spells (s := Result.schema) [] hv blank_nil
    (show v.depth < maxDepth by omega) Result.no_tag
  rw [List.nil_append, List.append_nil] at hread
  rw [Schema.parse, document]
  generalize Result.schema.read maxDepth m.text = r at hread ⊢
  generalize Result.schema.ofValue v = t at hread ⊢
  cases hread with
  | ok row =>
    change Except.ok row = Except.ok result.toRow ↔ _
    simp only [Except.ok.injEq]
  | error e c => constructor <;> intro h <;> cases h

private theorem exists_given_iff {f : Field} (hf : f.kind ≠ .code) :
    (∃ s, (members.map Member.name).count f.name ≤ 1 ∧ Given members f s) ↔
      Fits members f.name fun own => ∃ s, Denotes own f.kind s :=
  exists_from_iff members (fun s own => Denotes own f.kind s) (exists_absent hf) f.name

private theorem exists_givenResult_iff :
    (∃ result, (members.map Member.name).count "Result" ≤ 1 ∧ GivenResult members result) ↔
      Fits members "Result" fun own => ∃ row, Result.schema.parse own = .ok row := by
  have habsent : ∃ result : Result, result = ⟨.other "", ""⟩ := ⟨_, rfl⟩
  have hiff := exists_from_iff members
    (fun (result : Result) own => Result.schema.parse own = .ok result.toRow) habsent "Result"
  refine hiff.trans (and_congr_right fun _ => forall₃_congr fun m _ _ => ?_)
  constructor
  · rintro ⟨result, h⟩
    exact ⟨_, h⟩
  · rintro ⟨row, h⟩
    exact ⟨Result.ofRow row, h⟩

end Members

/-! ### Payloads -/

/-- The fields that a request of this operation knows. -/
def Request.fields (op : Operation) : List Field :=
  Base.schema.fields ++ op.requestTag.body.fields

/-- The fields that an answer of this operation knows, besides its result block. -/
def Answer.fields (op : Operation) : List Field :=
  Base.schema.fields ++ op.answerTag.body.fields

/-- How a text with these members is decoded as a request. -/
structure Request.FollowsMembers (op : Operation) (members : List Member) (text : Bytes) :
    Prop where
  /-- It is accepted if no name of a field stands twice and each member is acceptable by itself. -/
  accepted : (∃ r, Request.decode op text = .ok r) ↔
    ∀ f ∈ Request.fields op, Fits members f.name fun own => ∃ s, Denotes own f.kind s
  /-- Each field is what its own member denotes, or what an absent one is. -/
  given : ∀ r, Request.decode op text = .ok r →
    r.base.toRow.Each (Given members) ∧ r.body.Each (Given members)

/-- How a text with these members is decoded as an answer. -/
structure Answer.FollowsMembers (op : Operation) (members : List Member) (text : Bytes) : Prop where
  /-- It is accepted if no name of a field nor that of the result block stands twice, and each
  member is acceptable by itself. -/
  accepted : (∃ a, Answer.decode op text = .ok a) ↔
    (∀ f ∈ Answer.fields op, Fits members f.name fun own => ∃ s, Denotes own f.kind s) ∧
      Fits members "Result" fun own => ∃ row, Result.schema.parse own = .ok row
  /-- Each field is what its own member denotes, or what an absent one is. -/
  given : ∀ a, Answer.decode op text = .ok a →
    a.base.toRow.Each (Given members) ∧ GivenResult members a.result ∧ a.body.Each (Given members)

theorem Tag.kinds (t : Tag) : ∀ f ∈ Base.schema.fields ++ t.body.fields,
    f.kind ≠ .code ∧ (f.kind = .tag → f.name = "MessageType") := by
  obtain ⟨operation, direction⟩ := t
  cases operation <;> cases direction <;> decide +kernel

section Payloads

variable {op : Operation} {members : List Member} {text : Bytes}

/-- No message tag is written as an object. -/
def PlainTag (members : List Member) : Prop :=
  ∀ m ∈ members, m.name = "MessageType" → ∀ inner, Value.parse m.text ≠ .ok (.object inner)

/-- What a field is to hold that stands once at most. -/
private abbrev Told (members : List Member) (f : Field) (s : f.kind.Slot) : Prop :=
  (members.map Member.name).count f.name ≤ 1 ∧ Given members f s

/-- Among the fields of a message, each holds what its members tell. -/
private theorem each_iff {t : Tag} {values : List (String × Value)} {fs : List Field} {row : Row fs}
    (hfs : ∀ f ∈ fs, f ∈ Base.schema.fields ++ t.body.fields) (h : SpellsMembers values members)
    (hd : Value.depthMembers values < maxDepth - 1) (hplain : PlainTag members) :
    row.Each (Holds values) ↔ row.Each (Told members) := by
  refine Row.each_congr fun f hf s => holds_iff h hd fun hk m hm hname => hplain m hm ?_
  rw [hname]
  exact (t.kinds f (hfs f hf)).2 hk

/-- Rows for the base and the body can be had if all members of their fields are acceptable. -/
private theorem exists_rows_iff (t : Tag) :
    ((∃ base : Row Base.schema.fields, base.Each (Told members)) ∧
      ∃ body : Body t, body.Each (Told members)) ↔
      ∀ f ∈ Base.schema.fields ++ t.body.fields,
        Fits members f.name fun own => ∃ s, Denotes own f.kind s := by
  rw [Row.exists_each, Row.exists_each, ← List.forall_mem_append]
  exact forall₂_congr fun f hf => exists_given_iff (t.kinds f hf).1

theorem Request.followsMembers (h : ObjectText members text) (hplain : PlainTag members) :
    FollowsMembers op members text := by
  obtain ⟨front, inner, back, hfront, hback, hlaid, hvalues, rfl⟩ := h
  obtain ⟨values, hspells, hd⟩ := exists_values hvalues
  have hdecode : ∀ r, decode op (front ++ 123 :: (inner ++ 125 :: back)) = .ok r ↔
      r.base.toRow.Each (Told members) ∧ r.body.Each (Told members) := by
    intro r
    rw [decode_iff ⟨_, _, _, _, hfront, hback, Entries.stands_of_spells hspells hd, hlaid, rfl⟩,
      each_iff (t := op.requestTag) (fun f hf => List.mem_append_left _ hf) hspells hd hplain,
      each_iff (t := op.requestTag) (fun f hf => List.mem_append_right _ hf) hspells hd hplain]
  refine ⟨?_, fun r hr => ?_⟩
  · rw [fields, ← exists_rows_iff]
    constructor
    · rintro ⟨r, hr⟩
      obtain ⟨hbase, hbody⟩ := (hdecode r).mp hr
      exact ⟨⟨_, hbase⟩, _, hbody⟩
    · rintro ⟨⟨base, hbase⟩, body, hbody⟩
      exact ⟨⟨Base.ofRow base, body⟩, (hdecode _).mpr ⟨hbase, hbody⟩⟩
  · obtain ⟨hbase, hbody⟩ := (hdecode r).mp hr
    exact ⟨hbase.imp fun f s h => h.2, hbody.imp fun f s h => h.2⟩

theorem Answer.followsMembers (h : ObjectText members text) (hplain : PlainTag members) :
    FollowsMembers op members text := by
  obtain ⟨front, inner, back, hfront, hback, hlaid, hvalues, rfl⟩ := h
  obtain ⟨values, hspells, hd⟩ := exists_values hvalues
  have hdecode : ∀ a, decode op (front ++ 123 :: (inner ++ 125 :: back)) = .ok a ↔
      a.base.toRow.Each (Told members) ∧ a.body.Each (Told members) ∧
        (members.map Member.name).count "Result" ≤ 1 ∧ GivenResult members a.result := by
    intro a
    rw [decode_iff ⟨_, _, _, _, hfront, hback, Entries.stands_of_spells hspells hd, hlaid, rfl⟩,
      result_iff hspells hd,
      each_iff (t := op.answerTag) (fun f hf => List.mem_append_left _ hf) hspells hd hplain,
      each_iff (t := op.answerTag) (fun f hf => List.mem_append_right _ hf) hspells hd hplain]
  refine ⟨?_, fun a ha => ?_⟩
  · rw [fields, ← exists_rows_iff, ← exists_givenResult_iff]
    constructor
    · rintro ⟨a, ha⟩
      obtain ⟨hbase, hbody, hresult⟩ := (hdecode a).mp ha
      exact ⟨⟨⟨_, hbase⟩, _, hbody⟩, _, hresult⟩
    · rintro ⟨⟨⟨base, hbase⟩, body, hbody⟩, result, hresult⟩
      exact ⟨⟨Base.ofRow base, result, body⟩, (hdecode _).mpr ⟨hbase, hbody, hresult⟩⟩
  · obtain ⟨hbase, hbody, -, hresult⟩ := (hdecode a).mp ha
    exact ⟨hbase.imp fun f s h => h.2, hresult, hbody.imp fun f s h => h.2⟩

end Payloads

/-- Every text of an object is decoded member by member, as a request and as an answer of any
operation, unless its message type is written as an object. -/
theorem payloads_are_decoded_member_by_member (text : Bytes) :
    ((∃ values, Value.parse text = .ok (.object values)) ↔ ∃ members, ObjectText members text) ∧
      ∀ members, ObjectText members text → PlainTag members → ∀ op : Operation,
        Request.FollowsMembers op members text ∧ Answer.FollowsMembers op members text :=
  ⟨parse_object_iff, fun _ h hplain _ =>
    ⟨Request.followsMembers h hplain, Answer.followsMembers h hplain⟩⟩

/-! ### Compact texts -/

private theorem laid_moreMembers (values : List (String × Value)) :
    Laid false (values.map fun p => ⟨p.1, utf8 p.2.print⟩) (moreMembers values) := by
  induction values with
  | nil => exact blank_nil
  | cons p values ih =>
    exact ⟨[44], escaped p.1 ++ [34], [58], moreMembers values, ⟨[], [], blank_nil, blank_nil, rfl⟩,
      readText_escaped p.1 [], ⟨[], [], blank_nil, blank_nil, rfl⟩, ih,
      by rw [moreMembers_cons, memberBytes]; simp⟩

/-- The compact text of an object is laid out with its members. -/
theorem objectText_print (values : List (String × Value))
    (hd : ∀ p ∈ values, p.2.depth < maxDepth - 1)
    (hx : ∀ p ∈ values, ∀ x ∈ p.2.reals, ReadsBack x) :
    ObjectText (values.map fun p => ⟨p.1, utf8 p.2.print⟩) (utf8 (Value.object values).print) := by
  refine ⟨[], objectBytes values, [], blank_nil, blank_nil, ?_, ?_, utf8_print_object values⟩
  · cases values with
    | nil => exact blank_nil
    | cons p values =>
      exact ⟨[], escaped p.1 ++ [34], [58], moreMembers values, blank_nil, readText_escaped p.1 [],
        ⟨[], [], blank_nil, blank_nil, rfl⟩,
        laid_moreMembers values, by simp [objectBytes, memberBytes]⟩
  · intro m hm
    obtain ⟨p, hp, rfl⟩ := List.mem_map.mp hm
    have hread := readValue_print p.2 endsNumber_nil (hd p hp) (hx p hp)
    rw [List.append_nil] at hread
    exact ⟨(startsValue_print p.2 (hx p hp)).skipBlanks, p.2, hread⟩

/-- The members of a request to stop, the body's before the base's, and one of no field. -/
def stopValues : List (String × Value) :=
  [("Lifetime", .whole (.ofCount 60)), ("Extra", .list [.null, .object []]),
    ("TransactionID", .whole (.ofCount 7))]

/-- They are accepted, as nothing stands twice and both numbers are in digits. -/
theorem stop_request_is_decoded :
    ObjectText (stopValues.map fun p => ⟨p.1, utf8 p.2.print⟩)
    (utf8 (Value.object stopValues).print) ∧
      PlainTag (stopValues.map fun p => ⟨p.1, utf8 p.2.print⟩) ∧
      ∃ r, Request.decode .prStop (utf8 (Value.object stopValues).print) = .ok r := by
  have htext := objectText_print stopValues (by decide) (by
    intro p hp
    simp only [stopValues, List.mem_cons, List.not_mem_nil, or_false] at hp
    rcases hp with rfl | rfl | rfl <;> simp [Value.reals, Value.realsAll, Value.realsMembers])
  have hplain : PlainTag (stopValues.map fun p => ⟨p.1, utf8 p.2.print⟩) := by
    intro m hm hname
    simp only [stopValues, List.map_cons, List.map_nil, List.mem_cons, List.not_mem_nil,
      or_false] at hm
    rcases hm with rfl | rfl | rfl <;> exact absurd hname (by decide)
  refine ⟨htext, hplain, ?_⟩
  obtain ⟨hrequest, -⟩ := (payloads_are_decoded_member_by_member _).2 _ htext hplain .prStop
  have hcount : ∀ f ∈ Request.fields .prStop,
      ["Lifetime", "Extra", "TransactionID"].count f.name ≤ 1 := by decide +kernel
  have hfield : ∀ f ∈ Request.fields .prStop, f.name ≠ "Extra" ∧
      (f.name = "Lifetime" → f = ⟨"Lifetime", .count⟩) ∧
      (f.name = "TransactionID" → f = ⟨"TransactionID", .transaction⟩) := by decide +kernel
  refine hrequest.accepted.mpr fun f hf => ⟨hcount f hf, fun m hm hname => ?_⟩
  obtain ⟨hextra, hlifetime, htransaction⟩ := hfield f hf
  simp only [stopValues, List.map_cons, List.map_nil, List.mem_cons, List.not_mem_nil,
    or_false] at hm
  rcases hm with rfl | rfl | rfl
  · obtain rfl := hlifetime hname.symm
    exact ⟨_, .count 60 rfl⟩
  · exact absurd hname.symm hextra
  · obtain rfl := htransaction hname.symm
    exact ⟨_, .transaction 7 rfl⟩

end Roaming
