import Roaming.Proofs.Accepted
import Roaming.Proofs.Restating

/-!
# The normal form of a payload

What is decoded from a text survives encoding: a known code is not kept as another, a value of the
peer's is not `null`, is in order and no deeper than what is read. So the bytes that a payload is
encoded to are the normal form of every text that says the same.
-/

set_option autoImplicit false
set_option relaxedAutoImplicit false

namespace Roaming

open Roaming.Text (Bytes utf8)
open Roaming.Json

/-! ### Floats -/

/-- The floats in a content. -/
def Kind.reals : (k : Kind) → k.Slot → List Float
  | .frequency, x => x.toList
  | .value, v => v.toList.flatMap Value.reals
  | _, _ => []

/-- The floats in a row. -/
def Row.reals {fs : List Field} (r : Row fs) : List Float :=
  match fs, r with
  | [], () => []
  | f :: _, (s, rest) => f.kind.reals s ++ rest.reals

/-- The floats in a request. -/
def Request.reals {op : Operation} (r : Request op) : List Float :=
  r.base.toRow.reals ++ r.body.reals

/-- The floats in an answer. -/
def Answer.reals {op : Operation} (a : Answer op) : List Float :=
  a.base.toRow.reals ++ (a.result.toRow.reals ++ a.body.reals)

/-! ### Decoded contents -/

/-- A text is taken for a code by name wherever there is one. -/
theorem ResultCode.survives_ofText (s : String) : (ofText s).Survives := by
  intro t ht
  unfold ofText at ht
  cases hfind : known.find? (fun c => c.text == s) with
  | some c =>
    rw [hfind] at ht
    have hknown : ∀ c ∈ known, ∀ t, c ≠ .other t := by
      simp [known]
    exact absurd ht (hknown c (List.mem_of_find?_eq_some hfind) t)
  | none =>
    rw [hfind] at ht
    obtain rfl := ResultCode.other.inj ht
    intro hmem
    obtain ⟨c, hc, htext⟩ := List.mem_map.mp hmem
    exact List.find?_eq_none.mp hfind c hc (beq_iff_eq.mpr htext)

theorem ResultCode.survives_ofValue {v : Value} {c : ResultCode}
    (h : Kind.ofValue .code v = .ok c) : c.Survives := by
  cases v with
  | text s =>
    obtain rfl := Except.ok.inj h
    exact survives_ofText s
  | null | bool | whole | real | list | object => cases h

namespace Kind

variable {k : Kind} {s : k.Slot}

theorem survives_of_absent? (h : k.absent? = some s) : k.Survives s := by
  cases k with
  | code => cases h
  | label | transaction | tag | text | count => trivial
  | frequency | value =>
    obtain rfl := Option.some.inj h
    exact nofun

theorem survives_of_ofValue {v : Value} (h : k.ofValue v = .ok s) (hd : v.depth ≤ 126)
    (hx : ∀ x ∈ k.reals s, ReadsBack x) : k.Survives s := by
  cases k with
  | label | transaction | tag | text | count => trivial
  | code => exact ResultCode.survives_ofValue h
  | frequency => exact fun y hy => hx y (Option.mem_toList.mpr hy)
  | value =>
    obtain ⟨-, rfl⟩ | ⟨hnull, w, hw, rfl⟩ := eq_some_of_optionalOfValue h
    · exact nofun
    · obtain rfl := Except.ok.inj hw
      rintro w ⟨⟩
      refine ⟨fun hw => hnull (Value.sorted_eq_null.mp hw), Value.sorted_sorted v,
        (Value.depth_sorted_le v).trans hd, fun x hx' => hx x ?_⟩
      exact List.mem_flatMap.mpr ⟨v.sorted, Option.mem_toList.mpr rfl, hx'⟩

end Kind

/-- What is taken from the only member of its name, or absent, survives. -/
theorem Holds.survives {members : List (String × Value)} {f : Field} {s : f.kind.Slot}
    (h : Holds members f s) (hd : ∀ p ∈ members, p.1 = f.name → p.2.depth ≤ 126)
    (hx : ∀ x ∈ f.kind.reals s, ReadsBack x) : f.kind.Survives s := by
  have hnamed : ∀ p ∈ named f.name members, p.2.depth ≤ 126 := by
    intro p hp
    obtain ⟨hmem, hname⟩ := List.mem_filter.mp hp
    exact hd p hmem (beq_iff_eq.mp hname)
  rw [Holds] at h
  generalize named f.name members = ms at h hnamed
  cases h with
  | absent h => exact Kind.survives_of_absent? h
  | taken m h => exact Kind.survives_of_ofValue h (hnamed m (List.mem_singleton.mpr rfl)) hx

/-- The induction is on the fields, each of which has its own floats. -/
theorem Row.all_survive {members : List (String × Value)} {fs : List Field} {row : Row fs}
    (h : row.Each (Holds members))
    (hd : ∀ f ∈ fs, ∀ p ∈ members, p.1 = f.name → p.2.depth ≤ 126)
    (hx : ∀ x ∈ row.reals, ReadsBack x) : row.All fun k s => k.Survives s := by
  induction fs with
  | nil => trivial
  | cons f fs ih =>
    obtain ⟨s, row⟩ := row
    obtain ⟨hs, hrow⟩ := h
    rw [Row.reals] at hx
    exact ⟨hs.survives (hd f List.mem_cons_self) fun x hx' => hx x (List.mem_append_left _ hx'),
      ih hrow (fun g hg => hd g (List.mem_cons_of_mem _ hg))
        fun x hx' => hx x (List.mem_append_right _ hx')⟩

/-! ### Decoded payloads -/

/-- Besides the result block, no member of a message is deeper than what is read. -/
theorem MessageText.depth_le {withResult : Bool} {members : List (String × Value)} {text : Bytes}
    (h : MessageText withResult members text) {p : String × Value} (hp : p ∈ members)
    (hname : p.1 ≠ "Result") : p.2.depth ≤ 126 := by
  obtain ⟨laid, -, -, -, -, -, hstands, -⟩ := h
  induction hstands with
  | nil => cases hp
  | @cons q m members laid hm _ ih =>
    rcases List.mem_cons.mp hp with rfl | hp
    · have hother : (withResult && p.1 == "Result") = false := by
        simp [hname]
      obtain ⟨-, hm⟩ := hm
      rw [hother, if_neg Bool.false_ne_true] at hm
      exact Nat.le_of_lt_succ hm.2
    · exact ih hp

/-- The code of a result block is taken from a text, in either form of the block. -/
theorem Result.survives_ofValue {v : Value} {result : Result}
    (h : schema.ofValue v = .ok result.toRow) : result.code.Survives := by
  cases v with
  | object members =>
    obtain ⟨hcode, -⟩ := (Schema.ofMembers_iff (by decide) members result.toRow).mp h
    change Holds members ⟨"ResultCode", .code⟩ result.code at hcode
    rw [Holds] at hcode
    generalize named "ResultCode" members = ms at hcode
    cases hcode with
    | absent h => cases h
    | taken m h => exact ResultCode.survives_ofValue h
  | list items =>
    cases items with
    | nil => cases h
    | cons v items =>
      change ((Kind.ofValue .code v).bind fun code =>
        (Row.ofItems [⟨"Description", .label⟩] items).bind fun row => .ok (code, row)) =
          .ok (result.code, (result.description, ())) at h
      exact ResultCode.survives_ofValue (pair_ok_iff.mp h).1
  | null | bool | whole | real | text => cases h

section Payloads

variable {op : Operation} {text : Bytes}

/-- The fields of a message are not deeper than what is read. -/
private theorem depth_field {t : Tag} {withResult : Bool} {members : List (String × Value)}
    (h : MessageText withResult members text) {f : Field}
    (hf : f ∈ Base.schema.fields ++ t.body.fields) :
    ∀ p ∈ members, p.1 = f.name → p.2.depth ≤ 126 :=
  fun _ hp hname => h.depth_le hp (hname ▸ t.name_ne_result hf)

theorem Request.survives_of_decode {r : Request op} (h : decode op text = .ok r)
    (hx : ∀ x ∈ r.reals, ReadsBack x) : r.Survives := by
  obtain ⟨members, htext⟩ := messageText_of_decode h
  obtain ⟨-, hbody⟩ := (decode_iff htext r).mp h
  exact Row.all_survive hbody
    (fun f hf => depth_field (t := op.requestTag) htext (List.mem_append_right _ hf))
    fun x hx' => hx x (List.mem_append_right _ hx')

theorem Answer.survives_of_decode {a : Answer op} (h : decode op text = .ok a)
    (hx : ∀ x ∈ a.reals, ReadsBack x) : a.Survives := by
  obtain ⟨members, htext⟩ := messageText_of_decode h
  obtain ⟨-, hbody, hresult⟩ := (decode_iff htext a).mp h
  refine ⟨?_, Row.all_survive hbody
    (fun f hf => depth_field (t := op.answerTag) htext (List.mem_append_right _ hf))
    fun x hx' => hx x (List.mem_append_right _ (List.mem_append_right _ hx'))⟩
  generalize named "Result" members = ms at hresult
  cases hresult with
  | absent hmissing =>
    rw [hmissing]
    exact ResultCode.survives_ofText ""
  | taken m hm => exact Result.survives_ofValue hm

/-- How the request that was decoded from a text is encoded. -/
structure Request.Normal (r : Request op) (text : Bytes) : Prop where
  /-- All its contents survive. -/
  survives : r.Survives
  /-- Its bytes are decoded to it again, -/
  decoded : decode op r.encode = .ok r
  /-- and that is encoded to the same bytes. -/
  encoded : (decode op r.encode).map encode = .ok r.encode
  /-- The text holds members, -/
  members : ∃ members, MessageText false members text
  /-- and every text with the same members, or with members that say the same, is
  decoded to it too. -/
  restated : ∀ members members' text', MessageText false members text →
    Relation.EqvGen (Restates op) members members' → MessageText false members' text' →
      decode op text' = .ok r

/-- How the answer that was decoded from a text is encoded. -/
structure Answer.Normal (a : Answer op) (text : Bytes) : Prop where
  /-- All its contents survive. -/
  survives : a.Survives
  /-- Its bytes are decoded to it again, -/
  decoded : decode op a.encode = .ok a
  /-- and that is encoded to the same bytes. -/
  encoded : (decode op a.encode).map encode = .ok a.encode
  /-- The text holds members, -/
  members : ∃ members, MessageText true members text
  /-- and every text with the same members, or with members that say the same, is
  decoded to it too. -/
  restated : ∀ members members' text', MessageText true members text →
    Relation.EqvGen (Restates op) members members' → MessageText true members' text' →
      decode op text' = .ok a

theorem Request.normal_of_decode {r : Request op} (h : decode op text = .ok r)
    (hx : ∀ x ∈ r.reals, ReadsBack x) : r.Normal text := by
  have hsurvives := survives_of_decode h hx
  have hagain := decode_encode hsurvives
  refine ⟨hsurvives, hagain, by rw [hagain]; rfl, messageText_of_decode h, ?_⟩
  intro members members' text' htext hsame htext'
  exact (decode_restated hsame htext htext' r).mp h

theorem Answer.normal_of_decode {a : Answer op} (h : decode op text = .ok a)
    (hx : ∀ x ∈ a.reals, ReadsBack x) : a.Normal text := by
  have hsurvives := survives_of_decode h hx
  have hagain := decode_encode hsurvives
  refine ⟨hsurvives, hagain, by rw [hagain]; rfl, messageText_of_decode h, ?_⟩
  intro members members' text' htext hsame htext'
  exact (decode_restated hsame htext htext' a).mp h

end Payloads

/-- Whatever text a payload was decoded from, its encoding is decoded to it and encoded to itself,
and is the encoding of every text that says the same, if its floats are read back. -/
theorem payloads_have_a_normal_form (op : Operation) (text : Bytes) :
    (∀ r : Request op, Request.decode op text = .ok r → (∀ x ∈ r.reals, ReadsBack x) →
      r.Normal text) ∧ ∀ a : Answer op, Answer.decode op text = .ok a →
      (∀ x ∈ a.reals, ReadsBack x) → a.Normal text :=
  ⟨fun _ h hx => Request.normal_of_decode h hx, fun _ h hx => Answer.normal_of_decode h hx⟩

/-- A request with blanks, an escaped name, an empty label, an optional field that is `null`, a
member that nobody asks for, and a value of the peer's with a member twice. -/
def messyRequest : Bytes :=
  utf8 "\x7b \"Extra\": [1e2, \x7b\x7d],
    \"ULMetaData\": \x7b\"b\":null, \"a\": 15, \"b\": \"\\u0041\"\x7d,
    \"SenderNSID\":null, \"SenderID\": \"\", \"Transaction\\u0049D\": 7\x7d "

/-- An answer whose result block is a list. -/
def listedAnswer : Bytes :=
  utf8 "\x7b\"FNwkSIntKey\":\x7b\"KEKLabel\":\"\",\"AESKey\":\"00\"\x7d,
    \"Result\":[\"Success\"],\"DevEUI\":null\x7d"

/-- An answer with a float. -/
def tunedAnswer : Answer .xmitData where
  base := ⟨"", "", "", 7, none, none, none⟩
  result := ⟨.success, ""⟩
  body := (some 869.525, none, ())

theorem messy_payloads_have_a_normal_form :
    (∃ r : Request .prStart, Request.decode .prStart messyRequest = .ok r ∧ r.reals = [] ∧
      r.encode = utf8 "\x7b\"TransactionID\":7,\"ULMetaData\":\x7b\"a\":15,\"b\":\"A\"\x7d\x7d" ∧
        r.Normal messyRequest) ∧
      (∃ a : Answer .prStart, Answer.decode .prStart listedAnswer = .ok a ∧ a.reals = [] ∧
        a.Normal listedAnswer) ∧
      Answer.decode .xmitData tunedAnswer.encode = .ok tunedAnswer ∧
        (∀ x ∈ tunedAnswer.reals, ReadsBack x) ∧ tunedAnswer.Normal tunedAnswer.encode := by
  refine ⟨?_, ?_, ?_⟩
  · have hdecode : (Request.decode .prStart messyRequest).toOption.any (fun r =>
        r.reals.isEmpty && r.encode ==
          utf8 "\x7b\"TransactionID\":7,\"ULMetaData\":\x7b\"a\":15,\"b\":\"A\"\x7d\x7d") = true := by
      decide +kernel
    cases hr : Request.decode .prStart messyRequest with
    | error e =>
      rw [hr] at hdecode
      cases hdecode
    | ok r =>
      rw [hr] at hdecode
      obtain ⟨hreals, hencode⟩ := Bool.and_eq_true_iff.mp hdecode
      have hnone := List.isEmpty_iff.mp hreals
      exact ⟨r, rfl, hnone, beq_iff_eq.mp hencode,
        (payloads_have_a_normal_form .prStart messyRequest).1 r hr (by simp [hnone])⟩
  · have hdecode : (Answer.decode .prStart listedAnswer).toOption.any (fun a => a.reals.isEmpty) =
        true := by
      decide +kernel
    cases ha : Answer.decode .prStart listedAnswer with
    | error e =>
      rw [ha] at hdecode
      cases hdecode
    | ok a =>
      rw [ha] at hdecode
      have hnone := List.isEmpty_iff.mp hdecode
      exact ⟨a, rfl, hnone, (payloads_have_a_normal_form .prStart listedAnswer).2 a ha
        (by simp [hnone])⟩
  · have hfrequency : ReadsBack 869.525 := rfl
    have hreals : ∀ x ∈ tunedAnswer.reals, ReadsBack x := by
      intro x hx
      obtain rfl := List.mem_singleton.mp hx
      exact hfrequency
    have hsurvives : tunedAnswer.Survives := by
      refine ⟨nofun, ?_, nofun, trivial⟩
      rintro x ⟨⟩
      exact hfrequency
    have hdecode := Answer.decode_encode hsurvives
    exact ⟨hdecode, hreals,
      (payloads_have_a_normal_form .xmitData tunedAnswer.encode).2 tunedAnswer hdecode hreals⟩

end Roaming
