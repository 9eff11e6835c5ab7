import Mathlib.Data.List.Forall2
import Roaming.Proofs.Accepted
import Roaming.Proofs.Decoding
import Roaming.Proofs.Splitting

/-!
# The parts of a payload by themselves

A payload takes in all members of its text as values and picks its fields from them. Its base
and its body can be read from the same text alone, field by field as the text comes, and its
result block from the text of its own member. Each part is then the same, whatever the readers
of the parts pass over.
-/

set_option autoImplicit false
set_option relaxedAutoImplicit false

namespace Roaming

open Roaming.Text (Bytes utf8)
open Roaming.Json

theorem Json.ObjectText.isObjectOf {members : List Member} {text : Bytes}
    (h : ObjectText members text) : IsObjectOf members text := by
  obtain ⟨front, inner, back, hfront, hback, hl, hvalues, rfl⟩ := h
  refine ⟨front, inner, back, hfront, hback, hl, fun m hm => ?_, rfl⟩
  obtain ⟨v, hv, -⟩ := (hvalues m hm).spells
  exact hv.passable

/-! ### Members of a message -/

section Members

variable {s : Schema} {withResult : Bool} {depth depth' : Nat} {v : Value} {own text : Bytes}
  {values : List (String × Value)} {members laid : List Member}

theorem exists_left_of_mem {R : String × Value → Member → Prop} {m : Member}
    (h : List.Forall₂ R values members) (hm : m ∈ members) : ∃ p ∈ values, R p m := by
  induction h with
  | nil => cases hm
  | @cons p m' values members hp _ ih =>
    rcases List.mem_cons.mp hm with rfl | hm
    · exact ⟨p, List.mem_cons_self, hp⟩
    · obtain ⟨q, hq, hqm⟩ := ih hm
      exact ⟨q, List.mem_cons_of_mem _ hq, hqm⟩

theorem exists_right_of_mem {R : String × Value → Member → Prop} {p : String × Value}
    (h : List.Forall₂ R values members) (hp : p ∈ values) : ∃ m ∈ members, R p m := by
  induction h with
  | nil => cases hp
  | @cons p' m values members hm _ ih =>
    rcases List.mem_cons.mp hp with rfl | hp
    · exact ⟨m, List.mem_cons_self, hm⟩
    · obtain ⟨n, hn, hpn⟩ := ih hp
      exact ⟨n, List.mem_cons_of_mem _ hn, hpn⟩

theorem Schema.Writes.passable (h : s.Writes depth v own) : Passable own := by
  cases h with
  | value h => exact h.passable
  | object _ h hl =>
    refine passable_of_laid hl fun m hm => ?_
    obtain ⟨p, -, -, hpass, -⟩ := exists_left_of_mem h hm
    exact hpass

theorem Schema.Writes.mono (h : s.Writes depth v own) (hd : depth ≤ depth') :
    s.Writes depth' v own := by
  cases h with
  | value h hv => exact .value h (Nat.lt_of_lt_of_le hv hd)
  | object hone h hl =>
    refine .object (Nat.lt_of_lt_of_le hone hd) (h.imp fun p m hm => ?_) hl
    obtain ⟨hname, hpass, hfield⟩ := hm
    exact ⟨hname, hpass, fun hp => ⟨(hfield hp).1, Nat.lt_of_lt_of_le (hfield hp).2 (by omega)⟩⟩

/-- A record that is written as an object is laid out with members. -/
theorem Schema.Writes.exists_laid (h : s.Writes depth (.object values) own) :
    ∃ laid inner, own = 123 :: (inner ++ [125]) ∧ Laid true laid inner ∧
      List.Forall₂ (FieldStands s.fields (depth - 1)) values laid := by
  cases h with
  | value h hd =>
    rw [Spells] at h
    obtain ⟨laid, inner, hspells, hl, rfl⟩ := h
    rw [Value.depth] at hd
    exact ⟨laid, inner, rfl, hl, fieldStands_of_spells hspells (by omega)⟩
  | object _ h hl => exact ⟨_, _, rfl, hl, h⟩

private theorem Entries.Stands.passable {p : String × Value} {m : Member}
    (h : Stands withResult depth p m) : Passable m.text := by
  obtain ⟨-, hm⟩ := h
  split_ifs at hm
  · exact hm.passable
  · exact hm.1.passable

/-- To a record that knows no result block the members of a message stand as its own do. -/
private theorem Entries.Stands.field {p : String × Value} {m : Member}
    (h : Stands withResult depth p m) (hname : "Result" ∉ s.fields.map Field.name) :
    FieldStands s.fields depth p m := by
  refine ⟨h.1, h.passable, fun hp => ?_⟩
  have hne : p.1 ≠ "Result" := by
    intro he
    exact hname (he ▸ hp)
  obtain ⟨-, hm⟩ := h
  rw [if_neg (by simp [hne])] at hm
  exact hm

/-- The values of a message are those of the members that its text can be taken apart into. -/
private theorem exists_stands (h : ∃ values, MessageText withResult values text) :
    ∃ values members, MessageText withResult values text ∧ IsObjectOf members text ∧
      List.Forall₂ (Entries.Stands withResult (maxDepth - 1)) values members := by
  obtain ⟨values, members, front, inner, back, hfront, hback, hstands, hl, htext⟩ := h
  refine ⟨values, members, ⟨members, front, inner, back, hfront, hback, hstands, hl, htext⟩,
    ⟨front, inner, back, hfront, hback, hl, fun m hm => ?_, htext⟩, hstands⟩
  obtain ⟨p, -, hp⟩ := exists_left_of_mem hstands hm
  exact hp.passable

/-- A record that is taken from the values of a message is read from its text alone. -/
private theorem parse_of_messageText {row : Row s.fields} (h : MessageText withResult values text)
    (hname : "Result" ∉ s.fields.map Field.name) (hplain : PlainTags s.fields values)
    (hrow : s.ofMembers values = .ok row) : s.parse text = .ok row := by
  obtain ⟨laid, front, inner, back, hfront, hback, hstands, hl, rfl⟩ := h
  have hfields := hstands.imp fun p m hm => hm.field hname
  have hread := Schema.read_object back hfields hl hfront (show 1 < maxDepth by decide) hplain
  have htext :
    front ++ (123 :: (inner ++ [125]) ++ back) = front ++ 123 :: (inner ++ 125 :: back) := by
    simp
  rw [hrow, htext] at hread
  rw [Schema.parse, document]
  generalize s.read maxDepth _ = r at hread ⊢
  cases hread with
  | ok row => simp only [finish_ok_iff.mpr hback]

/-- A record that is taken from a value is read from the text of the value alone. -/
private theorem parse_of_writes {row : Row s.fields} (h : s.Writes depth v own)
    (hd : depth ≤ maxDepth) (hplain : ∀ f ∈ s.fields, f.kind ≠ .tag)
    (hrow : s.ofValue v = .ok row) : s.parse own = .ok row := by
  have hread := (h.mono hd).read blank_nil hplain []
  rw [List.nil_append, List.append_nil, hrow] at hread
  rw [Schema.parse, document]
  generalize s.read maxDepth own = r at hread ⊢
  cases hread with
  | ok row => rfl

end Members

/-! ### Payloads -/

theorem Tag.base_not_result : "Result" ∉ Base.schema.fields.map Field.name := by
  decide +kernel

theorem Tag.body_not_result (t : Tag) : "Result" ∉ t.body.fields.map Field.name := by
  intro h
  obtain ⟨f, hf, hname⟩ := List.mem_map.mp h
  exact t.name_ne_result (List.mem_append_right _ hf) hname

theorem Tag.base_tag : ∀ f ∈ Base.schema.fields, f.kind = .tag → f.name = "MessageType" :=
  fun f hf => (Tag.kinds ⟨.prStart, .request⟩ f (List.mem_append_left _ hf)).2

theorem Tag.body_no_tag (t : Tag) : ∀ f ∈ t.body.fields, f.kind ≠ .tag := by
  obtain ⟨operation, direction⟩ := t
  cases operation <;> cases direction <;> decide +kernel

section Payloads

variable {op : Operation} {withResult : Bool} {members : List Member} {text : Bytes}
  {values : List (String × Value)}

/-- A tag is not taken for an object if its text is not that of one. -/
private theorem plainTags_base (hplain : PlainTag members)
    (h : List.Forall₂ (Entries.Stands withResult (maxDepth - 1)) values members) :
    PlainTags Base.schema.fields values := by
  rintro p hp f hf hname hk inner hv
  obtain ⟨m, hm, hstands⟩ := exists_right_of_mem h hp
  have htag := Tag.base_tag f hf hk
  obtain ⟨-, -, hfield⟩ := hstands.field Tag.base_not_result
  obtain ⟨hspells, hdepth⟩ := hfield (hname ▸ List.mem_map.mpr ⟨f, hf, rfl⟩)
  have hparse := hspells.parse_eq (Nat.lt_of_lt_of_le hdepth (by decide))
  refine hplain m hm ?_ inner (hv ▸ hparse)
  rw [hstands.1, ← hname, htag]

/-- How a request stands in a text with these members: the readers of its parts give the same. -/
structure Request.StandsIn (r : Request op) (members : List Member) (text : Bytes) : Prop where
  base : PlainTag members → Base.schema.parse text = .ok r.base.toRow
  body : op.requestTag.body.parse text = .ok r.body

/-- How an answer stands in a text with these members: the readers of its parts give the same. -/
structure Answer.StandsIn (a : Answer op) (members : List Member) (text : Bytes) : Prop where
  base : PlainTag members → Base.schema.parse text = .ok a.base.toRow
  body : op.answerTag.body.parse text = .ok a.body
  result : ∀ m ∈ members, m.name = "Result" → Result.schema.parse m.text = .ok a.result.toRow
  missing : (∀ m ∈ members, m.name ≠ "Result") → a.result = .missing

theorem Request.standsIn_of_decode {r : Request op} (h : decode op text = .ok r) :
    ∃ members, IsObjectOf members text ∧ r.StandsIn members text := by
  obtain ⟨values, members, hmessage, hobject, hstands⟩ := exists_stands (messageText_of_decode h)
  obtain ⟨hbase, hbody⟩ := (decode_iff hmessage r).mp h
  refine ⟨members, hobject, fun hplain => ?_, ?_⟩
  · exact parse_of_messageText hmessage Tag.base_not_result (plainTags_base hplain hstands)
      ((Schema.ofMembers_iff Tag.base_nodup values _).mpr hbase)
  · exact parse_of_messageText hmessage op.requestTag.body_not_result
      (plainTags_of_no_tag op.requestTag.body_no_tag values)
      ((Schema.ofMembers_iff op.requestTag.body_nodup values _).mpr hbody)

/-- The result is that of the only member of its name. -/
private theorem result_of_sole {absent : Prop} {taken : Value → Prop} {m : Member}
    (hsole : Sole absent taken (named "Result" values))
    (h : List.Forall₂ (Entries.Stands true (maxDepth - 1)) values members) (hm : m ∈ members)
    (hname : m.name = "Result") :
    ∃ v, taken v ∧ Result.schema.Writes (maxDepth - 1) v m.text := by
  obtain ⟨p, hp, hpname, hstands⟩ := exists_left_of_mem h hm
  have hresult : p.1 = "Result" := hpname.symm.trans hname
  rw [if_pos (by simp [hresult])] at hstands
  have hmem : p ∈ named "Result" values := List.mem_filter.mpr ⟨hp, by simp [hresult]⟩
  generalize named "Result" values = ps at hsole hmem
  cases hsole with
  | absent => cases hmem
  | taken q hq =>
    obtain rfl := List.mem_singleton.mp hmem
    exact ⟨p.2, hq, hstands⟩

/-- Without a member of its name there is no result. -/
private theorem absent_of_sole {absent : Prop} {taken : Value → Prop}
    (hsole : Sole absent taken (named "Result" values))
    (h : List.Forall₂ (Entries.Stands true (maxDepth - 1)) values members)
    (hnone : ∀ m ∈ members, m.name ≠ "Result") : absent := by
  have hempty : named "Result" values = [] := by
    refine List.filter_eq_nil_iff.mpr fun p hp hname => ?_
    obtain ⟨m, hm, hmname, -⟩ := exists_right_of_mem h hp
    exact hnone m hm (hmname.trans (beq_iff_eq.mp hname))
  rw [hempty] at hsole
  cases hsole with
  | absent h => exact h

theorem Answer.standsIn_of_decode {a : Answer op} (h : decode op text = .ok a) :
    ∃ members, IsObjectOf members text ∧ a.StandsIn members text := by
  obtain ⟨values, members, hmessage, hobject, hstands⟩ := exists_stands (messageText_of_decode h)
  obtain ⟨hbase, hbody, hresult⟩ := (decode_iff hmessage a).mp h
  refine ⟨members, hobject, fun hplain => ?_, ?_, fun m hm hname => ?_,
    absent_of_sole hresult hstands⟩
  · exact parse_of_messageText hmessage Tag.base_not_result (plainTags_base hplain hstands)
      ((Schema.ofMembers_iff Tag.base_nodup values _).mpr hbase)
  · exact parse_of_messageText hmessage op.answerTag.body_not_result
      (plainTags_of_no_tag op.answerTag.body_no_tag values)
      ((Schema.ofMembers_iff op.answerTag.body_nodup values _).mpr hbody)
  · obtain ⟨v, hv, hwrites⟩ := result_of_sole hresult hstands hm hname
    exact parse_of_writes hwrites (by decide) Result.no_tag hv

end Payloads

/-- Every text that is decoded as a payload has one list of members, and the base, the body and the
result of the payload are what the texts of the message and of its result member are decoded to by
themselves, unless the message type is written as an object. -/
theorem payload_parts_are_decoded_alike (op : Operation) (text : Bytes) :
    (∀ r : Request op, Request.decode op text = .ok r →
      (∃! members, IsObjectOf members text) ∧
        ∀ members, IsObjectOf members text → r.StandsIn members text) ∧
      ∀ a : Answer op, Answer.decode op text = .ok a →
        (∃! members, IsObjectOf members text) ∧
          ∀ members, IsObjectOf members text → a.StandsIn members text := by
  constructor
  · intro r hr
    obtain ⟨members, hmembers, hstands⟩ := Request.standsIn_of_decode hr
    refine ⟨⟨members, hmembers, fun members' h => h.unique hmembers⟩, fun members' h => ?_⟩
    exact h.unique hmembers ▸ hstands
  · intro a ha
    obtain ⟨members, hmembers, hstands⟩ := Answer.standsIn_of_decode ha
    refine ⟨⟨members, hmembers, fun members' h => h.unique hmembers⟩, fun members' h => ?_⟩
    exact h.unique hmembers ▸ hstands

/-- The text of a result block with a member that it does not know. -/
def blockText : Bytes :=
  utf8 "\x7b\"Extra\":[\x7b\"a\":1,\"a\":null\x7d],\"ResultCode\":\"Deferred\"\x7d"

/-- The members of an answer to a request to stop, one of which it does not know. -/
def stopMembers : List Member :=
  [⟨"Result", blockText⟩, ⟨"MessageType", utf8 "\"PRStopAns\""⟩, ⟨"Other", utf8 "[[],-1]"⟩,
    ⟨"TransactionID", utf8 "7"⟩]

/-- The text of this answer. -/
def stopText : Bytes :=
  utf8 "\x7b\n\"Result\": " ++ blockText ++ utf8 ",\"MessageType\":\"PRStopAns\"" ++
    utf8 ",\"Other\":[[],-1]" ++ utf8 ",\"TransactionID\":7\x7d"

private theorem laid_cons {first : Bool} {members : List Member} {gap colon more : Bytes}
    (m : Member) (hgap : Before first gap) (hcolon : Colon colon)
    (hmore : Laid false members more) : Laid first (m :: members)
      (gap ++ 34 :: (escaped m.name ++ [34] ++ (colon ++ (m.text ++ more)))) :=
  ⟨gap, _, colon, more, hgap, readText_escaped m.name [], hcolon, hmore, rfl⟩

private theorem isObjectOf_stopText : IsObjectOf stopMembers stopText := by
  have hfeed : Blank [10] := by simp [Blank, isBlank]
  have hspace : Blank [32] := by simp [Blank, isBlank]
  have hcomma : Before false [44] := ⟨[], [], blank_nil, blank_nil, rfl⟩
  have hcolon : Colon [58] := ⟨[], [], blank_nil, blank_nil, rfl⟩
  have hwide : Colon [58, 32] := ⟨[], [32], blank_nil, hspace, rfl⟩
  have hlaid := laid_cons ⟨"Result", blockText⟩ (show Before true [10] from hfeed) hwide
    (laid_cons ⟨"MessageType", utf8 "\"PRStopAns\""⟩ hcomma hcolon
      (laid_cons ⟨"Other", utf8 "[[],-1]"⟩ hcomma hcolon
        (laid_cons ⟨"TransactionID", utf8 "7"⟩ hcomma hcolon
        (show Laid false [] [] from blank_nil))))
  refine ⟨[], _, [], blank_nil, blank_nil, hlaid, fun m hm => ?_, by decide +kernel⟩
  simp only [stopMembers, List.mem_cons, List.not_mem_nil, or_false] at hm
  have hpassable : ∀ {own : Bytes}, skipBlanks own = own → (skipValue own).toOption = some [] →
      Passable own := by
    intro own htight hskip
    refine ⟨htight, ?_⟩
    cases h : skipValue own with
    | error e =>
      rw [h] at hskip
      cases hskip
    | ok rest =>
      rw [h] at hskip
      rw [Option.some.inj hskip]
  rcases hm with rfl | rfl | rfl | rfl <;> exact hpassable (by decide +kernel) (by decide +kernel)

theorem stop_message_parts_are_decoded_alike :
    IsObjectOf stopMembers stopText ∧ PlainTag stopMembers ∧
      (∃ r, Request.decode .prStop stopText = .ok r ∧ r.StandsIn stopMembers stopText) ∧
        ∃ a, Answer.decode .prStop stopText = .ok a ∧ a.StandsIn stopMembers stopText ∧
          Result.schema.parse blockText = .ok a.result.toRow := by
  have hobject := isObjectOf_stopText
  have hplain : PlainTag stopMembers := by
    intro m hm hname inner hinner
    simp only [stopMembers, List.mem_cons, List.not_mem_nil, or_false] at hm
    rcases hm with rfl | rfl | rfl | rfl
    · exact absurd hname (by decide +kernel)
    · have hdepth : (Value.parse (utf8 "\"PRStopAns\"")).toOption.all (·.depth == 0) = true := by
        decide +kernel
      rw [hinner] at hdepth
      simp [Except.toOption, Value.depth] at hdepth
    · exact absurd hname (by decide +kernel)
    · exact absurd hname (by decide +kernel)
  have hrequest : (Request.decode .prStop stopText).toOption.isSome = true := by decide +kernel
  have hanswer : (Answer.decode .prStop stopText).toOption.isSome = true := by decide +kernel
  refine ⟨hobject, hplain, ?_, ?_⟩
  · cases hr : Request.decode .prStop stopText with
    | error e =>
      rw [hr] at hrequest
      cases hrequest
    | ok r =>
      obtain ⟨-, hstands⟩ := (payload_parts_are_decoded_alike .prStop stopText).1 r hr
      exact ⟨r, rfl, hstands stopMembers hobject⟩
  · cases ha : Answer.decode .prStop stopText with
    | error e =>
      rw [ha] at hanswer
      cases hanswer
    | ok a =>
      obtain ⟨-, hstands⟩ := (payload_parts_are_decoded_alike .prStop stopText).2 a ha
      have hparts := hstands stopMembers hobject
      exact ⟨a, rfl, hparts, hparts.result ⟨"Result", blockText⟩ List.mem_cons_self rfl⟩

end Roaming
