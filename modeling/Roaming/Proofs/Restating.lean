import Mathlib.Data.List.Nodup
import Mathlib.Logic.Relation
import Roaming.Proofs.Decoding
import Roaming.Proofs.Sorting

/-!
# Members that say the same

What a payload is decoded to does not depend on the order of its members, on members that nobody
asks for, on optional fields that are `null` and labels that are empty, nor on how the peer arranged
its own values. The same holds inside the result block, which may also be a list of its contents.
-/

set_option autoImplicit false
set_option relaxedAutoImplicit false

namespace Roaming

open Roaming.Text (Bytes)
open Roaming.Json

/-- Whether `null` stands for the absent field. -/
def Kind.isOptional : Kind → Bool
  | .label | .transaction | .code => false
  | .tag | .text | .count | .frequency | .value => true

/-- One change of members that says nothing new to a reader of the fields, who looks at the
known names only. The labels are the protocol version, the sender, the receiver, and the
description of a result. -/
inductive Restates (known : List String) (fs : List Field) :
    List (String × Value) → List (String × Value) → Prop where
  | reordered {members members' : List (String × Value)} (h : members.Perm members') :
      Restates known fs members members'
  | unknown {p : String × Value} (h : p.1 ∉ known) (members : List (String × Value)) :
      Restates known fs (p :: members) members
  | null {f : Field} {members : List (String × Value)} (hf : f ∈ fs) (hk : f.kind.isOptional = true)
      (h : f.name ∉ members.map Prod.fst) : Restates known fs ((f.name, .null) :: members) members
  | empty {f : Field} {members : List (String × Value)} (hf : f ∈ fs) (hk : f.kind = .label)
      (h : f.name ∉ members.map Prod.fst) :
      Restates known fs ((f.name, .text "") :: members) members
  | owned {f : Field} {v w : Value} (hf : f ∈ fs) (hk : f.kind = .value) (h : v.Rearranges w)
      (members : List (String × Value)) :
      Restates known fs ((f.name, v) :: members) ((f.name, w) :: members)

/-- One change of a result block that says nothing new: of its members, or from a list of its
contents to the members with these. -/
inductive Result.Restates : Value → Value → Prop where
  | members {members members' : List (String × Value)}
      (h : Roaming.Restates (schema.fields.map Field.name) schema.fields members members') :
      Restates (.object members) (.object members')
  | listed {items : List Value} (h : items.length ≤ schema.fields.length) :
      Restates (.list items) (.object ((schema.fields.map Field.name).zip items))

/-- One change of a request's members that says nothing new. -/
def Request.Restates (op : Operation) : List (String × Value) → List (String × Value) → Prop :=
  Roaming.Restates ((fields op).map Field.name) (fields op)

/-- One change of an answer's members that says nothing new: of its fields, or in its result
block. -/
inductive Answer.Restates (op : Operation) :
    List (String × Value) → List (String × Value) → Prop where
  | fields {members members' : List (String × Value)}
      (h : Roaming.Restates ("Result" :: (fields op).map Field.name) (fields op) members members') :
      Restates op members members'
  | result {v w : Value} (h : Result.Restates v w) (members : List (String × Value)) :
      Restates op (("Result", v) :: members) (("Result", w) :: members)

/-! ### What is taken from members -/

section Sole

variable {absent : Prop} {taken : Value → Prop} {members members' : List (String × Value)}

theorem sole_nil_iff : Sole absent taken [] ↔ absent :=
  ⟨fun | .absent h => h, .absent⟩

theorem sole_cons_iff {m : String × Value} :
    Sole absent taken (m :: members) ↔ members = [] ∧ taken m.2 := by
  constructor
  · rintro (_ | ⟨_, h⟩)
    exact ⟨rfl, h⟩
  · rintro ⟨rfl, h⟩
    exact .taken m h

theorem sole_perm (h : members.Perm members') :
    Sole absent taken members ↔ Sole absent taken members' := by
  have himp : ∀ {ms ms' : List (String × Value)}, ms.Perm ms' →
      Sole absent taken ms → Sole absent taken ms' := by
    rintro ms ms' hperm (hnone | ⟨m, hm⟩)
    · exact List.nil_perm.mp hperm ▸ .absent hnone
    · exact List.singleton_perm.mp hperm ▸ .taken m hm
  exact ⟨himp h, himp h.symm⟩

theorem named_eq_nil {name : String} (h : name ∉ members.map Prod.fst) : named name members = [] :=
  List.filter_eq_nil_iff.mpr fun m hm he =>
    h (List.mem_map.mpr ⟨m, hm, beq_iff_eq.mp he⟩)

end Sole

/-! ### Fields -/

section Fields

variable {known : List String} {fs : List Field} {members members' : List (String × Value)}

/-- What is taken from the members with a known name stays what it was, if `null`, empty texts and
rearranged values make no difference where they may come in. -/
theorem Restates.sole_iff (h : Restates known fs members members') {name : String}
    (hname : name ∈ known) {absent : Prop} {taken : Value → Prop}
    (hnull : ∀ f ∈ fs, f.name = name → f.kind.isOptional = true → (taken .null ↔ absent))
    (hempty : ∀ f ∈ fs, f.name = name → f.kind = .label → (taken (.text "") ↔ absent))
    (howned : ∀ f ∈ fs, f.name = name → f.kind = .value →
      ∀ v w : Value, v.Rearranges w → (taken v ↔ taken w)) :
    Sole absent taken (named name members) ↔ Sole absent taken (named name members') := by
  cases h with
  | reordered h => exact sole_perm (h.filter _)
  | unknown h members =>
    have hne : ∀ {n}, n ∉ known → n ≠ name := fun h he => h (he ▸ hname)
    rw [named_cons_neg (hne h)]
  | @null f members hf hk h =>
    by_cases he : f.name = name
    · rw [named_cons_pos he, named_eq_nil (he ▸ h), sole_cons_iff, sole_nil_iff]
      exact (and_iff_right rfl).trans (hnull f hf he hk)
    · rw [named_cons_neg he]
  | @empty f members hf hk h =>
    by_cases he : f.name = name
    · rw [named_cons_pos he, named_eq_nil (he ▸ h), sole_cons_iff, sole_nil_iff]
      exact (and_iff_right rfl).trans (hempty f hf he hk)
    · rw [named_cons_neg he]
  | @owned f v w hf hk h members =>
    by_cases he : f.name = name
    · rw [named_cons_pos he, named_cons_pos he, sole_cons_iff, sole_cons_iff]
      exact and_congr_right fun _ => howned f hf he hk v w h
    · rw [named_cons_neg he, named_cons_neg he]

theorem Kind.ofValue_null_iff {k : Kind} (hk : k.isOptional = true) (s : k.Slot) :
    k.ofValue .null = .ok s ↔ k.absent? = some s := by
  cases k with
  | label | transaction | code => cases hk
  | tag | text | count | frequency | value =>
    exact ⟨fun h => congrArg some (Except.ok.inj h), fun h => congrArg Except.ok
      (Option.some.inj h)⟩

/-- A value of the peer's is taken as it is kept. -/
theorem Kind.ofValue_rearranged {v w : Value} (h : v.Rearranges w) :
    Kind.ofValue .value v = Kind.ofValue .value w := by
  have hnull : v = .null ↔ w = .null := by
    rw [← Value.sorted_eq_null, h.sorted_eq, Value.sorted_eq_null]
  by_cases hv : v = .null
  · rw [hv, hnull.mp hv]
  · have hw : w ≠ .null := fun hw => hv (hnull.mpr hw)
    have hread := optionalOfValue_of_ne (fun v => .ok v.sorted) hv
    have hread' := optionalOfValue_of_ne (fun v => .ok v.sorted) hw
    rw [h.sorted_eq] at hread
    exact hread.trans hread'.symm

theorem Restates.holds_iff (h : Restates known fs members members')
    (hfs : (fs.map Field.name).Nodup) (hknown : ∀ f ∈ fs, f.name ∈ known) {f : Field} (hf : f ∈ fs)
    (s : f.kind.Slot) : Holds members f s ↔ Holds members' f s := by
  have hsame : ∀ g ∈ fs, g.name = f.name → g = f :=
    fun g hg he => List.inj_on_of_nodup_map hfs hg hf he
  refine h.sole_iff (hknown f hf) ?_ ?_ ?_
  · intro g hg he hk
    obtain rfl := hsame g hg he
    exact Kind.ofValue_null_iff hk s
  · intro g hg he hk
    obtain rfl := hsame g hg he
    obtain ⟨name, kind⟩ := g
    subst hk
    exact ⟨fun h => congrArg some (Except.ok.inj h), fun h => congrArg Except.ok
      (Option.some.inj h)⟩
  · intro g hg he hk v w hvw
    obtain rfl := hsame g hg he
    obtain ⟨name, kind⟩ := g
    subst hk
    have hvalue : Kind.ofValue .value v = .ok s ↔ Kind.ofValue .value w = .ok s := by
      rw [Kind.ofValue_rearranged hvw]
    exact hvalue

end Fields

/-! ### The result block -/

/-- A pair is had if both its parts are. -/
theorem pair_ok_iff {ε α β : Type} {x : Except ε α} {y : Except ε β} {a : α} {b : β} :
    (x.bind fun a => y.bind fun b => .ok (a, b)) = .ok (a, b) ↔ x = .ok a ∧ y = .ok b := by
  cases x with
  | error e => exact ⟨nofun, nofun⟩
  | ok a' =>
    cases y with
    | error e => exact ⟨nofun, nofun⟩
    | ok b' => simp [Except.bind]

/-- A list of contents is taken for the members with these contents. The induction is on the
fields. -/
theorem Row.ofItems_iff {fs : List Field} (hfs : (fs.map Field.name).Nodup) {items : List Value}
    (h : items.length ≤ fs.length) (row : Row fs) :
    Row.ofItems fs items = .ok row ↔ row.Each (Holds ((fs.map Field.name).zip items)) := by
  induction fs generalizing items with
  | nil =>
    obtain rfl := List.length_eq_zero_iff.mp (Nat.le_zero.mp h)
    exact iff_of_true rfl trivial
  | cons f fs ih =>
    obtain ⟨s, row⟩ := row
    obtain ⟨hf, hfs⟩ := List.nodup_cons.mp hfs
    cases items with
    | nil =>
      have hnone : Holds [] f s ↔ f.kind.absent? = some s := sole_nil_iff
      have hrest := ih hfs (show ([] : List Value).length ≤ fs.length from Nat.zero_le _) row
      rw [List.zip_nil_right] at hrest ⊢
      rw [Row.Each, hnone, ← hrest, Row.ofItems]
      cases f.kind.absent? with
      | none =>
        constructor
        · intro h
          cases h
        · rintro ⟨h, -⟩
          cases h
      | some t =>
        have hpair := pair_ok_iff (x := Except.ok (ε := Cause) t) (y := Row.ofItems fs []) (a := s)
          (b := row)
        rw [Except.ok.injEq] at hpair
        rw [Option.some.injEq]
        exact hpair
    | cons v items =>
      have hnames : f.name ∉ ((fs.map Field.name).zip items).map Prod.fst := by
        intro hmem
        obtain ⟨⟨n, w⟩, hzip, rfl⟩ := List.mem_map.mp hmem
        exact hf (List.of_mem_zip hzip).1
      have hown : Holds ((f.name, v) :: (fs.map Field.name).zip items) f s ↔
          f.kind.ofValue v = .ok s := by
        rw [Holds, named_cons_pos (m := (f.name, v)) rfl, named_eq_nil hnames, sole_cons_iff]
        exact and_iff_right rfl
      have hothers : row.Each (Holds ((f.name, v) :: (fs.map Field.name).zip items)) ↔
          row.Each (Holds ((fs.map Field.name).zip items)) := by
        refine Row.each_congr fun g hg t => ?_
        have hne : f.name ≠ g.name := fun he => hf (List.mem_map.mpr ⟨g, hg, he.symm⟩)
        rw [Holds, Holds, named_cons_neg hne]
      rw [List.map_cons, List.zip_cons_cons, Row.Each, hown, hothers,
        ← ih hfs (Nat.le_of_succ_le_succ h) row]
      exact pair_ok_iff

theorem Result.Restates.ofValue_iff {v w : Value} (h : Result.Restates v w)
    (row : Row Result.schema.fields) :
    Result.schema.ofValue v = .ok row ↔ Result.schema.ofValue w = .ok row := by
  have hfs : (Result.schema.fields.map Field.name).Nodup := by decide
  cases h with
  | @members a b h =>
    change Result.schema.ofMembers a = .ok row ↔ Result.schema.ofMembers b = .ok row
    rw [Schema.ofMembers_iff hfs, Schema.ofMembers_iff hfs]
    exact Row.each_congr fun f hf s => h.holds_iff hfs (fun g hg => List.mem_map_of_mem hg) hf s
  | @listed items h =>
    change Row.ofItems Result.schema.fields items = .ok row ↔ Result.schema.ofMembers _ = .ok row
    rw [Schema.ofMembers_iff hfs, Row.ofItems_iff hfs h]

/-! ### Messages -/

theorem Tag.fields_nodup (t : Tag) :
    ((Base.schema.fields ++ t.body.fields).map Field.name).Nodup := by
  rw [List.map_append]
  exact t.names_nodup.sublist ((List.sublist_cons_self _ _).append_left _)

section Messages

variable {op : Operation} {members members' : List (String × Value)} {text text' : Bytes}

/-- What no single change makes true or false, no number of changes does. -/
private theorem iff_of_eqvGen {α : Type} {step : α → α → Prop} {P : α → Prop}
    (hstep : ∀ a b, step a b → (P a ↔ P b)) {a b : α} (h : Relation.EqvGen step a b) :
    P a ↔ P b := by
  induction h with
  | rel a b h => exact hstep a b h
  | refl a => exact Iff.rfl
  | symm a b _ ih => exact ih.symm
  | trans a b c _ _ ih ih' => exact ih.trans ih'

theorem Request.Restates.holds_iff (h : Request.Restates op members members') {f : Field}
    (hf : f ∈ Request.fields op) (s : f.kind.Slot) : Holds members f s ↔ Holds members' f s :=
  Roaming.Restates.holds_iff h op.requestTag.fields_nodup (fun _ hg => List.mem_map_of_mem hg) hf s

/-- A request is the same from all texts whose members say the same. -/
theorem Request.decode_restated (h : Relation.EqvGen (Request.Restates op) members members')
    (ht : MessageText false members text) (ht' : MessageText false members' text')
    (r : Request op) : decode op text = .ok r ↔ decode op text' = .ok r := by
  rw [decode_iff ht, decode_iff ht']
  refine iff_of_eqvGen (P := fun members => r.base.toRow.Each (Holds members) ∧
    r.body.Each (Holds members)) (fun members members' h => ?_) h
  exact and_congr
    (Row.each_congr fun f hf s => h.holds_iff (List.mem_append_left _ hf) s)
    (Row.each_congr fun f hf s => h.holds_iff (List.mem_append_right _ hf) s)

theorem Answer.Restates.holds_iff (h : Answer.Restates op members members') {f : Field}
    (hf : f ∈ Answer.fields op) (s : f.kind.Slot) : Holds members f s ↔ Holds members' f s := by
  cases h with
  | fields h =>
    exact Roaming.Restates.holds_iff h op.answerTag.fields_nodup
      (fun _ hg => List.mem_cons_of_mem _ (List.mem_map_of_mem hg)) hf s
  | result h members =>
    have hne : "Result" ≠ f.name := (op.answerTag.name_ne_result hf).symm
    rw [Holds, Holds, named_cons_neg hne, named_cons_neg hne]

theorem Answer.Restates.result_iff (h : Answer.Restates op members members') {absent : Prop}
    (row : Row Result.schema.fields) :
    Sole absent (fun v => Result.schema.ofValue v = .ok row) (named "Result" members) ↔
      Sole absent (fun v => Result.schema.ofValue v = .ok row) (named "Result" members') := by
  cases h with
  | fields h =>
    have hno : ∀ f ∈ Answer.fields op, f.name ≠ "Result" := fun f hf =>
      op.answerTag.name_ne_result hf
    exact h.sole_iff List.mem_cons_self (fun f hf he => absurd he (hno f hf))
      (fun f hf he => absurd he (hno f hf)) (fun f hf he => absurd he (hno f hf))
  | @result v w h members =>
    have hpos : ∀ u : Value, named "Result" (("Result", u) :: members) =
        ("Result", u) :: named "Result" members := fun u => named_cons_pos rfl
    rw [hpos, hpos, sole_cons_iff, sole_cons_iff]
    exact and_congr_right fun _ => h.ofValue_iff row

/-- An answer is the same from all texts whose members say the same. -/
theorem Answer.decode_restated (h : Relation.EqvGen (Answer.Restates op) members members')
    (ht : MessageText true members text) (ht' : MessageText true members' text') (a : Answer op) :
    decode op text = .ok a ↔ decode op text' = .ok a := by
  rw [decode_iff ht, decode_iff ht']
  refine iff_of_eqvGen (P := fun members => a.base.toRow.Each (Holds members) ∧
    a.body.Each (Holds members) ∧ Sole (a.result = .missing)
      (fun v => Result.schema.ofValue v = .ok a.result.toRow) (named "Result" members))
    (fun members members' h => ?_) h
  exact and_congr (Row.each_congr fun f hf s => h.holds_iff (List.mem_append_left _ hf) s)
    (and_congr (Row.each_congr fun f hf s => h.holds_iff (List.mem_append_right _ hf) s)
      (h.result_iff a.result.toRow))

end Messages

end Roaming
