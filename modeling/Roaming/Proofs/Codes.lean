import Roaming.Proofs.Classification
import Roaming.Proofs.NormalForm
import Roaming.Proofs.Parts

/-!
# Result codes

A code is kept letter by letter, be it known by name or not: from the text of a result block into
the code, and from the code into whatever it is shown or written as. No two texts are taken for one
code, and only one of them reports success.
-/

set_option autoImplicit false
set_option relaxedAutoImplicit false

namespace Roaming

open Roaming.Text (Bytes utf8)
open Roaming.Json

namespace ResultCode

variable {c : ResultCode} {s s' : String}

theorem text_ofText (s : String) : (ofText s).text = s := by
  unfold ofText
  cases hfind : known.find? (fun c => c.text == s) with
  | none => rfl
  | some c =>
    have hname := List.find?_some hfind
    exact beq_iff_eq.mp hname

theorem toText_eq_text (c : ResultCode) : c.toText = c.text := by
  cases c <;> rfl

theorem ofText_injective (h : ofText s = ofText s') : s = s' := by
  rw [← text_ofText s, h, text_ofText]

theorem isSuccess_ofText : (ofText s).isSuccess = true ↔ s = "Success" := by
  rw [isSuccess, beq_iff_eq]
  constructor
  · intro h
    rw [← text_ofText s, h, text]
  · rintro rfl
    rfl

/-- A code is built again from its text, unless it is kept as another one under a name that is
known. -/
theorem ofText_text_iff : ofText c.text = c ↔ ∀ k ∈ known, c ≠ .other k.text := by
  have hsurvives : c.Survives ↔ ∀ k ∈ known, c ≠ .other k.text := by
    constructor
    · intro h k hk hc
      exact h k.text hc (List.mem_map.mpr ⟨k, hk, rfl⟩)
    · intro h t hc hmem
      obtain ⟨k, hk, rfl⟩ := List.mem_map.mp hmem
      exact h k hk hc
  rw [← hsurvives]
  constructor
  · intro h
    exact h ▸ survives_ofText c.text
  · exact ofText_text

/-- How the code that is built from a text keeps it. -/
structure Keeps (s : String) : Prop where
  text : (ofText s).text = s
  shown : toString (ofText s) = s
  turned : (ofText s).toText = s
  written : Kind.print? .code (ofText s) = some (Value.text s).print
  success : (ofText s).isSuccess = true ↔ s = "Success"

theorem keeps (s : String) : Keeps s where
  text := text_ofText s
  shown := text_ofText s
  turned := (toText_eq_text _).trans (text_ofText s)
  written := by
    rw [Kind.print?, text_ofText, Value.print]
  success := isSuccess_ofText

end ResultCode

/-! ### Result blocks -/

/-- Whether the text of a result block has this code: as its member of that name, or as the first
item of a list. -/
inductive Result.Bears (text : Bytes) (s : String) : Prop where
  | member (members : List Member) (m : Member) (hobject : IsObjectOf members text)
      (hm : m ∈ members) (hname : m.name = "ResultCode")
      (hcode : Value.parse m.text = .ok (.text s)) : Bears text s
  | item (items : List Value) (hlist : Value.parse text = .ok (.list (.text s :: items))) :
      Bears text s

section Block

variable {text : Bytes} {result : Result} {s : String}

private theorem eq_ofText_of_ofValue {v : Value} {c : ResultCode}
    (h : Kind.ofValue .code v = .ok c) : ∃ t, v = .text t ∧ c = .ofText t := by
  cases v with
  | text t => exact ⟨t, rfl, (Except.ok.inj h).symm⟩
  | null | bool | whole | real | list | object => cases h

/-- No text is that of an object and that of a list. -/
private theorem not_list_of_isObjectOf {members : List Member} {items : List Value}
    (h : IsObjectOf members text) : Value.parse text ≠ .ok (.list items) := by
  intro hparse
  obtain ⟨front, inner, back, hfront, -, -, -, htext⟩ := h
  obtain ⟨front', own, back', hfront', -, hspells, -, htext'⟩ := exists_spells_of_parse hparse
  rw [Spells] at hspells
  obtain ⟨owns, inner', -, -, rfl⟩ := hspells
  rw [htext] at htext'
  -- They differ in the first byte that is not blank.
  have hskip := congrArg skipBlanks htext'
  rw [skipBlanks_append hfront, skipBlanks_append hfront', skipBlanks_cons (by decide),
    List.cons_append, skipBlanks_cons (by decide)] at hskip
  exact absurd (List.cons.inj hskip).1 (by decide)

/-- What is read as a result is taken from the value that the text is written as. -/
private theorem exists_writes_of_parse (h : Result.schema.parse text = .ok result.toRow) :
    ∃ front own back v, Blank front ∧ Blank back ∧ Result.schema.Writes maxDepth v own ∧
      Result.schema.ofValue v = .ok result.toRow ∧ text = front ++ (own ++ back) := by
  unfold Schema.parse document at h
  split at h
  · cases h
  · next row rest hread =>
    split at h
    · cases h
    · next hfinish =>
      obtain rfl := Except.ok.inj h
      obtain ⟨front, own, v, hfront, hwrites, rfl⟩ := Schema.read_cut Result.texts hread
      have hmatches := hwrites.read hfront Result.no_tag rest
      rw [hread] at hmatches
      refine ⟨front, own, rest, v, hfront, finish_ok_iff.mp hfinish, hwrites, ?_, rfl⟩
      generalize Result.schema.ofValue v = c at hmatches ⊢
      cases hmatches with
      | ok => rfl

/-- The code of an object is that of its only member of this name. -/
private theorem bears_iff_of_object {members : List (String × Value)} {laid : List Member}
    {depth : Nat} (hd : depth ≤ maxDepth) (hobject : IsObjectOf laid text)
    (hstands : List.Forall₂ (FieldStands Result.schema.fields depth) members laid)
    (hof : Result.schema.ofMembers members = .ok result.toRow) :
    Result.Bears text s ↔ result.code = .ofText s := by
  have hvalue : ∀ {p : String × Value} {m : Member}, FieldStands Result.schema.fields depth p m →
      p.1 = "ResultCode" → Value.parse m.text = .ok p.2 := by
    intro p m hm hname
    obtain ⟨-, -, hfield⟩ := hm
    obtain ⟨hspells, hdepth⟩ := hfield (hname ▸ List.mem_cons_self)
    exact hspells.parse_eq (Nat.lt_of_lt_of_le hdepth hd)
  obtain ⟨hcode, -⟩ := (Schema.ofMembers_iff (by decide) members result.toRow).mp hof
  change Holds members ⟨"ResultCode", .code⟩ result.code at hcode
  rw [Holds] at hcode
  generalize hnamed : named "ResultCode" members = ps at hcode
  cases hcode with
  | absent h => cases h
  | taken p h =>
    obtain ⟨t, ht, hof⟩ := eq_ofText_of_ofValue h
    obtain ⟨hp, hpname⟩ := List.mem_filter.mp (hnamed ▸ List.mem_singleton_self p)
    have hpname := beq_iff_eq.mp hpname
    constructor
    · -- Whoever takes the text apart finds the same members, and so this one.
      rintro (⟨laid', m, hobject', hm, hname, hparse⟩ | ⟨items, hlist⟩)
      · obtain rfl := hobject'.unique hobject
        obtain ⟨q, hq, hqm⟩ := exists_left_of_mem hstands hm
        have hqname : q.1 = "ResultCode" := hqm.1.symm.trans hname
        have hmem : q ∈ named "ResultCode" members :=
          List.mem_filter.mpr ⟨hq, beq_iff_eq.mpr hqname⟩
        rw [hnamed] at hmem
        obtain rfl := List.mem_singleton.mp hmem
        have hsame := (hvalue hqm hqname).symm.trans hparse
        rw [ht] at hsame
        rw [hof, Value.text.inj (Except.ok.inj hsame)]
      · exact absurd hlist (not_list_of_isObjectOf hobject)
    · intro hs
      obtain rfl := ResultCode.ofText_injective (hof.symm.trans hs)
      obtain ⟨m, hm, hpm⟩ := exists_right_of_mem hstands hp
      refine .member laid m hobject hm (hpm.1.trans hpname) ?_
      rw [hvalue hpm hpname, ht]

/-- The code of a list is its first item. -/
private theorem bears_iff_of_list {items : List Value}
    (hparse : Value.parse text = .ok (.list items))
    (hof : Row.ofItems Result.schema.fields items = .ok result.toRow) :
    Result.Bears text s ↔ result.code = .ofText s := by
  cases items with
  | nil => cases hof
  | cons v items =>
    change ((Kind.ofValue .code v).bind fun code =>
      (Row.ofItems [⟨"Description", .label⟩] items).bind fun row => .ok (code, row)) =
        .ok (result.code, (result.description, ())) at hof
    obtain ⟨t, rfl, hcode⟩ := eq_ofText_of_ofValue (pair_ok_iff.mp hof).1
    constructor
    · rintro (⟨members, m, hobject, -⟩ | ⟨items', hlist⟩)
      · exact absurd hparse (not_list_of_isObjectOf hobject)
      · have hsame := Value.list.inj (Except.ok.inj (hparse.symm.trans hlist))
        rw [hcode, Value.text.inj (List.cons.inj hsame).1]
    · intro hs
      obtain rfl := ResultCode.ofText_injective (hcode.symm.trans hs)
      exact .item items hparse

/-- The code of a result is built from the text that its block has as its code. -/
theorem Result.bears_iff (h : schema.parse text = .ok result.toRow) :
    Bears text s ↔ result.code = .ofText s := by
  obtain ⟨front, own, back, v, hfront, hback, hwrites, hof, rfl⟩ := exists_writes_of_parse h
  cases v with
  | object members =>
    obtain ⟨laid, inner, rfl, hl, hstands⟩ := hwrites.exists_laid
    have hobject : IsObjectOf laid (front ++ (123 :: (inner ++ [125]) ++ back)) := by
      refine ⟨front, inner, back, hfront, hback, hl, fun m hm => ?_, by simp⟩
      obtain ⟨p, -, -, hpass, -⟩ := exists_left_of_mem hstands hm
      exact hpass
    exact bears_iff_of_object (by decide) hobject hstands hof
  | list items =>
    cases hwrites with
    | value hspells hd => exact bears_iff_of_list (hspells.parse_append hd hfront hback) hof
  | null | bool | whole | real | text => cases hof

/-- A result is read back from its block. -/
theorem Result.parse_print (h : result.code.Survives) :
    schema.parse (utf8 (schema.print result.toRow)) = .ok result.toRow := by
  have hread : schema.read maxDepth (utf8 (schema.print result.toRow) ++ []) =
      .ok (result.toRow, []) := by
    refine Schema.read_print (by decide) (Answer.survives_result h) (by decide) fun m hm => ?_
    rw [Answer.depth_result result m hm]
    decide
  rw [List.append_nil] at hread
  rw [Schema.parse, document, hread]
  rfl

/-- How a result that was decoded from a block keeps the code of the block. -/
structure Result.KeepsCode (text : Bytes) (result : Result) : Prop where
  /-- The block has a code, -/
  named : ∃ s, Bears text s
  /-- and the result has it. -/
  code : ∀ s, Bears text s ↔ result.code = .ofText s
  /-- Written again, the block has the same code, -/
  printed : ∀ s, Bears (utf8 (schema.print result.toRow)) s ↔ Bears text s
  /-- and is decoded to the same result. -/
  again : schema.parse (utf8 (schema.print result.toRow)) = .ok result.toRow

theorem Result.keepsCode (h : schema.parse text = .ok result.toRow) : KeepsCode text result := by
  obtain ⟨-, -, -, v, -, -, -, hof, -⟩ := exists_writes_of_parse h
  have hsurvives := survives_ofValue hof
  have hagain := parse_print hsurvives
  refine ⟨⟨result.code.text, ?_⟩, fun s => bears_iff h, fun s => ?_, hagain⟩
  · exact (bears_iff h).mpr (ResultCode.ofText_text hsurvives).symm
  · exact (bears_iff hagain).trans (bears_iff h).symm

end Block

/-! ### Answers -/

/-- Whether the text of an answer has this code: that of its result block, or none where there is no
block. -/
inductive Answer.Bears (text : Bytes) (s : String) : Prop where
  | block (members : List Member) (m : Member) (hobject : IsObjectOf members text)
      (hm : m ∈ members) (hname : m.name = "Result") (hcode : Result.Bears m.text s) : Bears text s
  | missing (members : List Member) (hobject : IsObjectOf members text)
      (hnone : ∀ m ∈ members, m.name ≠ "Result") (hs : s = "") : Bears text s

/-- The text that an answer is written as has its code. -/
theorem Answer.bears_encode {op : Operation} {a : Answer op} (h : a.Survives) :
    Bears a.encode a.result.code.text := by
  obtain ⟨hcode, hbody⟩ := h
  have hbase := a.base.survives_toRow
  have hresult := survives_result hcode
  have hdepths := depth_result a.result
  have hvalues : ∀ p ∈ a.values, p.2.depth < maxDepth - 1 ∧ ∀ x ∈ p.2.reals, ReadsBack x := by
    intro p hp
    rcases List.mem_append.mp hp with hp | hp
    · exact ⟨Nat.lt_succ_of_le (Row.depth_values hbase hp), Row.reals_values hbase hp⟩
    rcases List.mem_cons.mp hp with rfl | hp
    · constructor
      · have hmembers := Value.depthMembers_le_iff.mpr fun m hm => Nat.le_of_eq (hdepths m hm)
        rw [Value.depth]
        exact Nat.lt_of_le_of_lt (Nat.add_le_add_right hmembers 1) (by decide)
      · rw [Value.reals, Value.realsMembers_eq_flatMap]
        intro x hx
        obtain ⟨m, hm, hxm⟩ := List.mem_flatMap.mp hx
        exact Row.reals_values hresult hm x hxm
    · exact ⟨Nat.lt_succ_of_le (Row.depth_values hbody hp), Row.reals_values hbody hp⟩
  have hobject := (objectText_print a.values (fun p hp => (hvalues p hp).1)
    fun p hp => (hvalues p hp).2).isObjectOf
  rw [encode, print_eq]
  refine .block _ ⟨"Result", utf8 (Result.schema.print a.result.toRow)⟩ hobject ?_ rfl ?_
  · refine List.mem_map.mpr ⟨("Result", .object a.result.toRow.values), ?_, ?_⟩
    · exact List.mem_append_right _ List.mem_cons_self
    · rw [Schema.print_eq]
  · exact (Result.bears_iff (Result.parse_print hcode)).mpr (ResultCode.ofText_text hcode).symm

theorem Answer.code_of_bears {op : Operation} {text : Bytes} {a : Answer op} {s : String}
    (h : decode op text = .ok a) (hs : Bears text s) : a.result.code = .ofText s := by
  obtain ⟨members, hobject, hstands⟩ := standsIn_of_decode h
  cases hs with
  | block members' m hobject' hm hname hcode =>
    obtain rfl := hobject'.unique hobject
    exact (Result.bears_iff (hstands.result m hm hname)).mp hcode
  | missing members' hobject' hnone hs =>
    obtain rfl := hobject'.unique hobject
    rw [hstands.missing hnone, hs]
    rfl

end Roaming

namespace Roaming.Simulation.Scene

open Roaming.Text (Bytes utf8)

/-- A text is kept by its code, whatever it is; two texts by two codes; a block decoded and written
again has its code still; and in every reachable scene a request over an answer with a code fails
with this code, unless it is the one that reports success. -/
theorem result_codes_are_kept :
    (∀ text, ResultCode.Keeps text) ∧
      (∀ c : ResultCode, .ofText c.text = c ↔ ∀ k ∈ ResultCode.known, c ≠ .other k.text) ∧
      (∀ text text', ResultCode.ofText text = .ofText text' → text = text') ∧
      (∀ text (result : Result), Result.schema.parse text = .ok result.toRow →
        Result.KeepsCode text result) ∧
      ∀ s : Scene, s.IsOpening →
        ∀ before (t : Task) (op : Operation) (actor : Actor) (r : Request op),
        t ∈ (s.after before).world.tasks → t.job = .request actor op r →
        (t.isDropped && !t.isBusy) = false →
        ∀ bytes, (s.after before).world.Hands t bytes →
        ∀ a : Answer op, Answer.decode op bytes = .ok a → a.IsFor r.base.transactionID →
        ∀ code, Answer.Bears bytes code →
          ((s.after before).act (.move (.task t.id))).world.outcomes t.id =
            [if code = "Success" then .accepted op a
              else .failed (.application (.ofText code) a.result.description)] := by
  refine ⟨ResultCode.keeps, fun c => ResultCode.ofText_text_iff,
    fun text text' h => ResultCode.ofText_injective h, fun text result h => Result.keepsCode h, ?_⟩
  intro s hs before t op actor r ht hjob hd bytes hands a ha hfor code hbears
  have hcode := Answer.code_of_bears ha hbears
  obtain ⟨o, ho, hjudged⟩ := ((hs.sound_after before).classifies ht hjob).judged hd bytes hands
  have hsuccess : a.result.code = .success ↔ code = "Success" := by
    rw [hcode, ← ResultCode.isSuccess_ofText, ResultCode.isSuccess, beq_iff_eq]
  rw [ho]
  split_ifs with h
  · rw [hjudged.unique (.accepted a ha hfor (hsuccess.mpr h))]
  · rw [hjudged.unique (.declined a ha hfor (mt hsuccess.mp h)), hcode]

/-- An answer whose code is the one of success but for a letter. -/
def almostAnswer : Answer .homeNS :=
  { homeAnswer 7 with result := ⟨.other "success", ""⟩ }

/-- A peer that answers so. -/
def almostPeer : Peer where
  name := none
  react _ _ := { ending := .answered ⟨200, almostAnswer.encode⟩ }

theorem almost_success_is_declined :
    (ResultCode.ofText "success").toText = "success" ∧
      ResultCode.ofText (ResultCode.other "Success").text ≠ .other "Success" ∧
      Result.schema.parse (utf8 (Result.schema.print almostAnswer.result.toRow)) =
        .ok almostAnswer.result.toRow ∧
      (((opening [almostPeer]).after [.start "t0" (.request syncClient .homeNS homeRequest) .never,
          .move (.task 0), .move (.post 1), .move (.post 1)]).act
          (.move (.task 0))).world.outcomes 0 =
        [.failed (.application (.ofText "success") "")] := by
  obtain ⟨hkeeps, hagain, -, hblock, hends⟩ := result_codes_are_kept
  have hsurvives : almostAnswer.result.code.Survives := by
    rintro t ⟨⟩
    decide +kernel
  have hparse := Result.parse_print hsurvives
  refine ⟨(hkeeps "success").turned, ?_, (hblock _ _ hparse).again, ?_⟩
  · intro h
    exact (hagain _).mp h .success (by decide) rfl
  · have hdecode : Answer.decode .homeNS almostAnswer.encode = .ok almostAnswer :=
      Answer.decode_encode ⟨hsurvives, trivial, trivial⟩
    have hbears : Answer.Bears almostAnswer.encode "success" :=
      Answer.bears_encode ⟨hsurvives, trivial, trivial⟩
    exact hends (opening [almostPeer]) (opening_isOpening [almostPeer])
      [.start "t0" (.request syncClient .homeNS homeRequest) .never, .move (.task 0),
        .move (.post 1), .move (.post 1)]
      ⟨0, "t0", .request syncClient .homeNS homeRequest, .never, false, true, .awaiting 1⟩ .homeNS
      syncClient homeRequest (List.mem_singleton_self _) rfl rfl almostAnswer.encode
      (.response 1 200 rfl rfl) almostAnswer hdecode ⟨rfl, .inl rfl⟩ "success" hbears

end Roaming.Simulation.Scene
