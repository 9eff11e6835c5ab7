import Roaming.Message.Payload
import Roaming.Proofs.Rows

/-!
# Payloads are read back

A request or an answer is written as one object, in which the fields of the base and of the body
stand side by side. Their names differ, so that each reader takes what is its own.
-/

set_option autoImplicit false
set_option relaxedAutoImplicit false

namespace Roaming

open Roaming.Text (Bytes utf8)
open Roaming.Json

/-- Whether every content of a request's body is read back as it was written. -/
def Request.Survives {op : Operation} (r : Request op) : Prop :=
  r.body.All fun k s => k.Survives s

/-- Whether the code and every content of an answer's body are read back as they were written. -/
def Answer.Survives {op : Operation} (a : Answer op) : Prop :=
  a.result.code.Survives ∧ a.body.All fun k s => k.Survives s

/-! ### The parts of a message -/

theorem Base.survives_toRow (b : Base) : b.toRow.All fun k s => k.Survives s :=
  ⟨trivial, trivial, trivial, trivial, trivial, trivial, trivial, trivial⟩

/-- No name stands twice among the fields of a message. -/
theorem Tag.names_nodup (t : Tag) :
    (Base.schema.fields.map Field.name ++ "Result" :: t.body.fields.map Field.name).Nodup := by
  obtain ⟨operation, direction⟩ := t
  cases operation <;> cases direction <;> decide +kernel

theorem Row.reals_values {fs : List Field} {r : Row fs} (hall : r.All fun k s => k.Survives s)
    {m : String × Value} (hm : m ∈ r.values) : ∀ x ∈ m.2.reals, ReadsBack x := by
  obtain ⟨k, s, hv, hs⟩ := ((Row.has_of_mem_values hm).and_all hall).exists
  exact Kind.reals_value? hs hv

theorem Row.depth_values {fs : List Field} {r : Row fs} (hall : r.All fun k s => k.Survives s)
    {m : String × Value} (hm : m ∈ r.values) : m.2.depth ≤ 126 := by
  obtain ⟨k, s, hv, hs⟩ := ((Row.has_of_mem_values hm).and_all hall).exists
  by_cases hk : k = .value
  · subst hk
    exact (hs _ hv).2.2.1
  · rw [Kind.depth_value? hk hv]
    exact Nat.zero_le _

/-! ### Entries -/

section Entries

variable {withResult : Bool} {depth fuel : Nat} {result : Option Result} {more rest : Bytes}

private theorem readEntries_cons {m : String × Value}
    (hname : (withResult && m.1 == "Result") = false) (hd : m.2.depth < depth)
    (hx : ∀ x ∈ m.2.reals, ReadsBack x) (hr : EndsNumber more) :
    readEntries withResult depth (fuel + 1) false result (44 :: 34 :: (memberBytes m ++ more)) =
      (readEntries withResult depth fuel false result more).map
        fun p => ({ p.1 with members := m :: p.1.members }, p.2) := by
  have hnext : nextName false (44 :: 34 :: (memberBytes m ++ more)) =
      .ok (.name (memberBytes m ++ more)) := rfl
  have hcolon : readColon (58 :: (utf8 m.2.print ++ more)) = .ok (utf8 m.2.print ++ more) := rfl
  simp only [readEntries, hnext, readText_memberBytes, hname, hcolon, readValue_print m.2 hr hd hx,
    bind, Except.bind, pure, Except.pure]
  cases readEntries withResult depth fuel false result more <;> rfl

/-- The result block is read where it comes. -/
private theorem readEntries_result {v : Value} {row : Row Result.schema.fields}
    (hread : Result.schema.read depth (utf8 v.print ++ more) = .ok (row, more)) :
    readEntries true depth (fuel + 1) false none (44 :: 34 :: (memberBytes ("Result", v) ++ more)) =
      readEntries true depth fuel false (some (Result.ofRow row)) more := by
  have hnext : nextName false (44 :: 34 :: (memberBytes ("Result", v) ++ more)) =
      .ok (.name (memberBytes ("Result", v) ++ more)) := rfl
  have hcolon : readColon (58 :: (utf8 v.print ++ more)) = .ok (utf8 v.print ++ more) := rfl
  simp only [readEntries, hnext, readText_memberBytes, hcolon, hread, bind, Except.bind]
  rfl

private theorem readEntries_more {members : List (String × Value)}
    (hnames : ∀ m ∈ members, (withResult && m.1 == "Result") = false)
    (hd : ∀ m ∈ members, m.2.depth < depth) (hx : ∀ m ∈ members, ∀ x ∈ m.2.reals, ReadsBack x)
    (hr : EndsNumber more) :
    readEntries withResult depth (fuel + members.length) false result
      (moreMembers members ++ more) = (readEntries withResult depth fuel false result more).map
        fun p => ({ p.1 with members := members ++ p.1.members }, p.2) := by
  induction members with
  | nil =>
    change readEntries withResult depth fuel false result more = _
    cases readEntries withResult depth fuel false result more <;> rfl
  | cons m members ih =>
    have hends : EndsNumber (moreMembers members ++ more) := by
      cases members with
      | nil => exact hr
      | cons n members => exact endsNumber_cons _ (by decide)
    have hrest := ih (fun m' hm' => hnames m' (List.mem_cons_of_mem _ hm'))
      (fun m' hm' => hd m' (List.mem_cons_of_mem _ hm'))
      (fun m' hm' => hx m' (List.mem_cons_of_mem _ hm'))
    rw [moreMembers_cons, List.cons_append, List.cons_append, List.append_assoc, List.length_cons,
      ← Nat.add_assoc, readEntries_cons (hnames m List.mem_cons_self) (hd m List.mem_cons_self)
        (hx m List.mem_cons_self) hends, hrest]
    cases readEntries withResult depth fuel false result more <;> rfl

/-- Only the first name stands without a comma before it. -/
private theorem readEntries_first (members : List (String × Value)) :
    readEntries withResult depth (fuel + 1) true result (objectBytes members ++ 125 :: rest) =
      readEntries withResult depth (fuel + 1) false result
      (moreMembers members ++ 125 :: rest) := by
  cases members with
  | nil => rfl
  | cons m members =>
    rw [moreMembers_cons]
    rfl

/-- All members of an object are taken in. -/
private theorem readEntries_members {members : List (String × Value)}
    (hnames : ∀ m ∈ members, (withResult && m.1 == "Result") = false)
    (hd : ∀ m ∈ members, m.2.depth < depth) (hx : ∀ m ∈ members, ∀ x ∈ m.2.reals, ReadsBack x)
    (hfuel : members.length < fuel) :
    readEntries withResult depth fuel false result (moreMembers members ++ 125 :: rest) =
      .ok (⟨result, members⟩, 125 :: rest) := by
  obtain ⟨spare, rfl⟩ : ∃ n, fuel = n + 1 + members.length := ⟨fuel - 1 - members.length, by omega⟩
  rw [readEntries_more hnames hd hx (endsNumber_cons _ (by decide))]
  change Except.ok (Entries.mk result (members ++ []), 125 :: rest) = _
  rw [List.append_nil]

end Entries

/-! ### Whole messages -/

private theorem document_readMessage {α : Type} {title : String} {withResult : Bool}
    {pick : Entries → Except Cause α} {members : List (String × Value)} {entries : Entries} {v : α}
    (hread : readEntries withResult 127 (rounds (objectBytes members ++ [125])) true none
      (objectBytes members ++ [125]) = .ok (entries, [125])) (hpick : pick entries = .ok v) :
    document (readMessage title withResult pick) (utf8 (Value.object members).print) = .ok v := by
  have hmessage : readMessage title withResult pick (utf8 (Value.object members).print) =
      .ok (v, []) := by
    rw [utf8_print_object]
    change enclosed leaveObject afterObject
      ((readEntries withResult 127 (rounds (objectBytes members ++ [125])) true none
        (objectBytes members ++ [125])).bind _) = _
    rw [hread]
    simp only [Except.bind, hpick]
    rfl
  rw [document, hmessage]
  rfl

private theorem mem_values_of_name {fs gs : List Field} {r : Row fs} {s : Row gs}
    {members : List (String × Value)} (hmembers : ∀ m ∈ members, m ∈ r.values ∨ m ∈ s.values)
    (hdisjoint : ∀ n ∈ fs.map Field.name, n ∉ gs.map Field.name) :
    ∀ m ∈ members, m.1 ∈ fs.map Field.name → m ∈ r.values := by
  intro m hm hname
  refine (hmembers m hm).resolve_right fun hs => hdisjoint m.1 hname ?_
  exact (Row.has_of_mem_values hs).mem

section Parts

variable {t : Tag} {b : Base} {r : Body t}

/-- The members of the base and of the body, side by side, have different names, none of which is
that of the result block. -/
private theorem names_values_nodup (t : Tag) (b : Base) (r : Body t) :
    ((b.toRow.values ++ r.values).map (·.1)).Nodup ∧
      ∀ m ∈ b.toRow.values ++ r.values, m.1 ≠ "Result" := by
  have hb := b.toRow.names_values
  have hr := r.names_values
  have hall := t.names_nodup
  have hsub : ((b.toRow.values ++ r.values).map (·.1)).Sublist
      (Base.schema.fields.map Field.name ++ t.body.fields.map Field.name) := by
    rw [List.map_append]
    exact hb.append hr
  refine ⟨hsub.nodup (hall.sublist ((List.sublist_cons_self _ _).append_left _)), ?_⟩
  intro m hm he
  have hmem := hsub.mem (List.mem_map.mpr ⟨m, hm, he⟩)
  rw [List.nodup_append] at hall
  obtain ⟨-, htail, hdisjoint⟩ := hall
  rcases List.mem_append.mp hmem with hbase | hbody
  · exact hdisjoint _ hbase _ List.mem_cons_self rfl
  · exact (List.nodup_cons.mp htail).1 hbody

private theorem ofMembers_parts (hr : r.All fun k s => k.Survives s) :
    Base.schema.ofMembers (b.toRow.values ++ r.values) = .ok b.toRow ∧
      t.body.ofMembers (b.toRow.values ++ r.values) = .ok r := by
  have hall := t.names_nodup
  rw [List.nodup_append] at hall
  obtain ⟨hbase, htail, hdisjoint⟩ := hall
  have hbody := (List.nodup_cons.mp htail).2
  have hnames := (names_values_nodup t b r).1
  have hmembers : ∀ m ∈ b.toRow.values ++ r.values, m ∈ b.toRow.values ∨ m ∈ r.values :=
    fun m hm => List.mem_append.mp hm
  constructor
  · refine Schema.ofMembers_eq hbase b.survives_toRow hnames
      (fun m hm => List.mem_append_left _ hm) (mem_values_of_name hmembers ?_)
    intro n hn hn'
    exact hdisjoint n hn n (List.mem_cons_of_mem _ hn') rfl
  · refine Schema.ofMembers_eq hbody hr hnames
      (fun m hm => List.mem_append_right _ hm)
      (mem_values_of_name (fun m hm => (hmembers m hm).symm) ?_)
    intro n hn hn'
    exact hdisjoint n hn' n (List.mem_cons_of_mem _ hn) rfl

/-- Without a result block the members of the base and of the body are all there is. -/
private theorem readEntries_parts (withResult : Bool) (hr : r.All fun k s => k.Survives s) :
    readEntries withResult 127 (rounds (objectBytes (b.toRow.values ++ r.values) ++ [125])) true
        none (objectBytes (b.toRow.values ++ r.values) ++ [125]) =
      .ok (⟨none, b.toRow.values ++ r.values⟩, [125]) := by
  have hnames := (names_values_nodup t b r).2
  have hvalue : ∀ m ∈ b.toRow.values ++ r.values, m.2.depth ≤ 126 ∧
    ∀ x ∈ m.2.reals, ReadsBack x := by
    intro m hm
    rcases List.mem_append.mp hm with hm | hm
    · have hall := b.survives_toRow
      exact ⟨Row.depth_values hall hm, Row.reals_values hall hm⟩
    · exact ⟨Row.depth_values hr hm, Row.reals_values hr hm⟩
  have := length_le_objectBytes (b.toRow.values ++ r.values)
  rw [rounds, readEntries_first]
  refine readEntries_members (fun m hm => ?_) (fun m hm => ?_) (fun m hm => (hvalue m hm).2) ?_
  · simp [hnames m hm]
  · have := (hvalue m hm).1
    omega
  · simp only [List.length_append] at this ⊢
    omega

end Parts

namespace Request

variable {op : Operation}

/-- The members that a request is written as. -/
def values (r : Request op) : List (String × Value) :=
  r.base.toRow.values ++ r.body.values

theorem print_eq (r : Request op) : r.print = (Value.object r.values).print := by
  rw [print, members, Row.print_eq, Row.print_eq, ← List.map_append]
  exact printObject_eq _

theorem decode_encode {r : Request op} (h : r.Survives) : decode op r.encode = .ok r := by
  obtain ⟨hbase, hbody⟩ := ofMembers_parts (b := r.base) h
  have hread := readEntries_parts (b := r.base) false h
  rw [encode, print_eq]
  refine document_readMessage hread ?_
  rw [ofEntries, hbase]
  change (op.requestTag.body.ofMembers _).bind _ = _
  rw [hbody]
  rfl

end Request

namespace Answer

variable {op : Operation}

/-- The members that an answer is written as. -/
def values (a : Answer op) : List (String × Value) :=
  a.base.toRow.values ++ ("Result", .object a.result.toRow.values) :: a.body.values

theorem print_eq (a : Answer op) : a.print = (Value.object a.values).print := by
  rw [print, members, Row.print_eq, Row.print_eq, Schema.print_eq]
  have hmap : a.base.toRow.values.map (fun m => (m.1, m.2.print)) ++
      ("Result", (Value.object a.result.toRow.values).print) ::
        a.body.values.map (fun m => (m.1, m.2.print)) =
      a.values.map fun m => (m.1, m.2.print) := by
    rw [values, List.map_append, List.map_cons]
  rw [hmap]
  exact printObject_eq _

theorem survives_result {r : Result} (h : r.code.Survives) :
    r.toRow.All fun k s => k.Survives s :=
  ⟨h, trivial, trivial⟩

theorem depth_result (r : Result) : ∀ m ∈ r.toRow.values, m.2.depth = 0 := by
  intro m hm
  have hall : r.toRow.All fun k _ => k ≠ .value := ⟨nofun, nofun, trivial⟩
  obtain ⟨k, s, hv, hk⟩ := ((Row.has_of_mem_values hm).and_all hall).exists
  exact Kind.depth_value? hk hv

/-- The members in front of the result block are taken in, then the block, then those behind it. -/
private theorem readEntries_values {a : Answer op} (h : a.Survives) {fuel : Nat}
    (hfuel : a.values.length < fuel) :
    readEntries true 127 fuel false none (moreMembers a.values ++ [125]) =
      .ok (⟨some a.result, a.base.toRow.values ++ a.body.values⟩, [125]) := by
  obtain ⟨hcode, hall⟩ := h
  have hbase := a.base.survives_toRow
  obtain ⟨-, hnames⟩ := names_values_nodup op.answerTag a.base a.body
  have hread : Result.schema.read 127 (utf8 (Value.object a.result.toRow.values).print ++
      (moreMembers a.body.values ++ [125])) =
      .ok (a.result.toRow, moreMembers a.body.values ++ [125]) := by
    rw [← Schema.print_eq]
    refine Schema.read_print (by decide) (survives_result hcode) (by omega) fun m hm => ?_
    have := depth_result a.result m hm
    omega
  have hlast : readEntries true 127 (fuel - a.base.toRow.values.length - 1) false (some a.result)
      (moreMembers a.body.values ++ [125]) = .ok (⟨some a.result, a.body.values⟩, [125]) :=
    readEntries_members
      (fun m hm => by simpa using hnames m (List.mem_append_right _ hm))
      (fun m hm => by have := Row.depth_values hall hm; omega)
      (fun m hm => Row.reals_values hall hm)
      (by simp only [values, List.length_append, List.length_cons] at hfuel; omega)
  have hsplit : moreMembers a.values ++ [125] = moreMembers a.base.toRow.values ++
      44 :: 34 :: (memberBytes ("Result", .object a.result.toRow.values) ++
        (moreMembers a.body.values ++ [125])) := by
    simp only [values, moreMembers, List.flatMap_append, List.flatMap_cons, List.append_assoc]
    rfl
  obtain ⟨spare, rfl⟩ : ∃ n, fuel = n + 1 + a.base.toRow.values.length := by
    simp only [values, List.length_append] at hfuel
    exact ⟨fuel - 1 - a.base.toRow.values.length, by omega⟩
  have hspare :
      spare + 1 + a.base.toRow.values.length - a.base.toRow.values.length - 1 = spare := by
    omega
  rw [hspare] at hlast
  rw [hsplit, readEntries_more (fun m hm => by simpa using hnames m (List.mem_append_left _ hm))
    (fun m hm => by have := Row.depth_values hbase hm; omega)
    (fun m hm => Row.reals_values hbase hm) (endsNumber_cons _ (by decide)),
    readEntries_result hread]
  change (readEntries true 127 spare false (some a.result) _).map _ = _
  rw [hlast]
  rfl

theorem decode_encode {a : Answer op} (h : a.Survives) : decode op a.encode = .ok a := by
  obtain ⟨hbase, hbody⟩ := ofMembers_parts (b := a.base) h.2
  have hread : readEntries true 127 (rounds (objectBytes a.values ++ [125])) true none
      (objectBytes a.values ++ [125]) =
      .ok (⟨some a.result, a.base.toRow.values ++ a.body.values⟩, [125]) := by
    have := length_le_objectBytes a.values
    rw [rounds, readEntries_first]
    apply readEntries_values h
    simp only [List.length_append]
    omega
  rw [encode, print_eq]
  refine document_readMessage hread ?_
  simp only [ofEntries, hbase, bind, Except.bind, hbody]
  rfl

/-- An answer that comes without a result block has not succeeded. -/
theorem decode_of_no_result {base : Base} {body : Body op.answerTag}
    (h : body.All fun k s => k.Survives s) :
    decode op (utf8 (Value.object (base.toRow.values ++ body.values)).print) =
      .ok ⟨base, .missing, body⟩ := by
  obtain ⟨hbase, hbody⟩ := ofMembers_parts (b := base) h
  refine document_readMessage (readEntries_parts (b := base) true h) ?_
  simp only [ofEntries, hbase, bind, Except.bind, hbody]
  rfl

end Answer

/-- Every request and every answer whose contents survive is read back from its bytes,
in every field. -/
theorem payloads_survive_encoding (op : Operation) :
    (∀ r : Request op, r.Survives → Request.decode op r.encode = .ok r) ∧
      ∀ a : Answer op, a.Survives → Answer.decode op a.encode = .ok a :=
  ⟨fun _ h => Request.decode_encode h, fun _ h => Answer.decode_encode h⟩

/-- Data of an uplink whose metadata holds a float, an empty name, an inner `null` and nested
lists. -/
def trickyRequest : Request .xmitData where
  base := ⟨"1.1", "", "\"é\\\n\x01", 4294967295, some ⟨.profile, .answer⟩, some "", none⟩
  body := (some "", none, some (.object [("", .list [.null, .list []]), ("é", .real 869.525)]),
    some (.text "null"), ())

/-- An answer with a code of the peer's own and an empty description. -/
def trickyAnswer : Answer .xmitData where
  base := ⟨"", "𝄞", "", 0, none, none, some "\t"⟩
  result := ⟨.other "success", ""⟩
  body := (some 869.525, none, ())

theorem tricky_payloads_survive_encoding :
    (trickyRequest.Survives ∧ Request.decode .xmitData trickyRequest.encode = .ok trickyRequest) ∧
      trickyAnswer.Survives ∧ Answer.decode .xmitData trickyAnswer.encode = .ok trickyAnswer := by
  have hfrequency : ReadsBack 869.525 := rfl
  have hrequest : trickyRequest.Survives := by
    refine ⟨trivial, trivial, ?_, ?_, trivial⟩
    · rintro w ⟨⟩
      refine ⟨nofun, rfl, by decide +kernel, ?_⟩
      intro x hx
      obtain rfl := List.mem_singleton.mp hx
      exact hfrequency
    · rintro w ⟨⟩
      exact ⟨nofun, rfl, by decide, nofun⟩
  have hanswer : trickyAnswer.Survives := by
    refine ⟨?_, ?_, nofun, trivial⟩
    · rintro s ⟨⟩
      decide +kernel
    · rintro x ⟨⟩
      exact hfrequency
  have hboth := payloads_survive_encoding .xmitData
  exact ⟨⟨hrequest, hboth.1 trickyRequest hrequest⟩, hanswer, hboth.2 trickyAnswer hanswer⟩

end Roaming
