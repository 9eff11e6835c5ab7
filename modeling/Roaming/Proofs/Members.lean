import Roaming.Message.Payload
import Roaming.Proofs.Readings
import Roaming.Proofs.RoundTrip

/-!
# Each field and its member

A record takes each field from the only member of its name, or leaves it absent where there is none
(`Sole`); members of other names have no part in it. The members of a message are the values that
stand in its text, with the result block told apart.
-/

set_option autoImplicit false
set_option relaxedAutoImplicit false

namespace Roaming

open Roaming.Text (Bytes utf8)
open Roaming.Json

/-- What holds of members of one name: there is none, and nothing is to be taken, or there is one,
and its value is. -/
inductive Sole (absent : Prop) (taken : Value → Prop) : List (String × Value) → Prop where
  | absent (h : absent) : Sole absent taken []
  | taken (m : String × Value) (h : taken m.2) : Sole absent taken [m]

/-- The members with this name. -/
def named (name : String) (members : List (String × Value)) : List (String × Value) :=
  members.filter fun m => m.1 == name

/-- The members with other names. -/
def others (name : String) (members : List (String × Value)) : List (String × Value) :=
  members.filter fun m => m.1 != name

section Named

variable {name name' : String} {m : String × Value} {members : List (String × Value)}

theorem named_cons_pos (h : m.1 = name) : named name (m :: members) = m :: named name members :=
  List.filter_cons_of_pos (by simpa using h)

theorem named_cons_neg (h : m.1 ≠ name) : named name (m :: members) = named name members :=
  List.filter_cons_of_neg (by simpa using h)

theorem others_cons_pos (h : m.1 = name) : others name (m :: members) = others name members :=
  List.filter_cons_of_neg (by simpa using h)

theorem others_cons_neg (h : m.1 ≠ name) : others name (m :: members) = m :: others name members :=
  List.filter_cons_of_pos (by simpa using h)

/-- Among the members with other names those with one of these are all there were. -/
theorem named_others (h : name ≠ name') :
    named name (others name' members) = named name members := by
  rw [named, named, others, List.filter_filter]
  refine List.filter_congr fun m _ => ?_
  by_cases hm : m.1 = name
  · simp [hm, h]
  · simp [hm]

end Named

/-! ### Rows -/

namespace Row

/-- Whether something holds of every field and its content. -/
def Each (P : (f : Field) → f.kind.Slot → Prop) {fs : List Field} (r : Row fs) : Prop :=
  match fs, r with
  | [], () => True
  | f :: _, (s, rest) => P f s ∧ rest.Each P

variable {fs : List Field} {P Q : (f : Field) → f.kind.Slot → Prop}

theorem each_congr {r : Row fs} (h : ∀ f ∈ fs, ∀ s, P f s ↔ Q f s) : r.Each P ↔ r.Each Q := by
  induction fs with
  | nil => exact Iff.rfl
  | cons f fs ih =>
    obtain ⟨s, rest⟩ := r
    rw [Each, Each, h f List.mem_cons_self, ih fun g hg => h g (List.mem_cons_of_mem _ hg)]

theorem Each.imp {r : Row fs} (h : r.Each P) (hPQ : ∀ f s, P f s → Q f s) : r.Each Q := by
  induction fs with
  | nil => trivial
  | cons f fs ih =>
    obtain ⟨s, rest⟩ := r
    exact ⟨hPQ f s h.1, ih h.2⟩

theorem exists_each : (∃ r : Row fs, r.Each P) ↔ ∀ f ∈ fs, ∃ s, P f s := by
  induction fs with
  | nil => exact ⟨fun _ => by simp, fun _ => ⟨(), trivial⟩⟩
  | cons f fs ih =>
    constructor
    · rintro ⟨⟨s, rest⟩, hs, hrest⟩ g hg
      rcases List.mem_cons.mp hg with rfl | hg
      · exact ⟨s, hs⟩
      · exact ih.mp ⟨rest, hrest⟩ g hg
    · intro h
      obtain ⟨s, hs⟩ := h f List.mem_cons_self
      obtain ⟨rest, hrest⟩ := ih.mpr fun g hg => h g (List.mem_cons_of_mem _ hg)
      exact ⟨(s, rest), hs, hrest⟩

end Row

/-! ### Drafts -/

section Drafts

variable {f : Field} {fs : List Field}

/-- The draft of some fields with one more before them. -/
private def Draft.cons (slot : Option f.kind.Slot) (draft : Draft fs) : Draft (f :: fs) :=
  (slot, draft)

/-- The row of some fields with one more before them. -/
private def Row.cons (s : f.kind.Slot) (row : Row fs) : Row (f :: fs) :=
  (s, row)

/-- One more value for a field. -/
private def refill (f : Field) (slot : Option f.kind.Slot) (m : String × Value) :
    Except Cause (Option f.kind.Slot) :=
  match slot with
  | some _ => .error (.duplicateField m.1)
  | none => (f.kind.ofValue m.2).map some

private theorem fillWith_own {m : String × Value} (h : m.1 = f.name) (slot : Option f.kind.Slot)
    (draft : Draft fs) : fillWith (f :: fs) (Draft.cons slot draft) m =
      (refill f slot m).map fun slot => Draft.cons slot draft := by
  simp only [fillWith, Draft.cons, Draft.fill?, if_pos h.symm, refill]
  cases slot with
  | some s => rfl
  | none => cases f.kind.ofValue m.2 <;> rfl

private theorem fillWith_other {m : String × Value} (h : m.1 ≠ f.name) (slot : Option f.kind.Slot)
    (draft : Draft fs) : fillWith (f :: fs) (Draft.cons slot draft) m =
      (fillWith fs draft m).map fun draft => Draft.cons slot draft := by
  simp only [fillWith, Draft.cons, Draft.fill?, if_neg h.symm]
  cases Draft.fill? m.1 (Cause.duplicateField m.1)
    (fun k => (k.ofValue m.2).map fun s => (s, ())) fs draft with
  | error c => rfl
  | ok filled => cases filled <;> rfl

/-- The first field sees the members of its name and the other fields see the others. -/
private theorem foldlM_fillWith_cons (members : List (String × Value))
    (slot slot' : Option f.kind.Slot) (draft draft' : Draft fs) :
    members.foldlM (fillWith (f :: fs)) (Draft.cons slot draft) = .ok (Draft.cons slot' draft') ↔
      (named f.name members).foldlM (refill f) slot = .ok slot' ∧
        (others f.name members).foldlM (fillWith fs) draft = .ok draft' := by
  induction members generalizing slot draft with
  | nil =>
    constructor
    · intro h
      obtain ⟨rfl, rfl⟩ := Prod.mk.inj (Except.ok.inj h)
      exact ⟨rfl, rfl⟩
    · rintro ⟨h, h'⟩
      obtain rfl := Except.ok.inj h
      obtain rfl := Except.ok.inj h'
      rfl
  | cons m members ih =>
    rw [List.foldlM_cons]
    by_cases h : m.1 = f.name
    · rw [fillWith_own h, named_cons_pos h, others_cons_pos h, List.foldlM_cons]
      cases refill f slot m with
      | error c =>
        constructor
        · intro hfold
          cases hfold
        · rintro ⟨hslot, -⟩
          cases hslot
      | ok s => exact ih s draft
    · rw [fillWith_other h, named_cons_neg h, others_cons_neg h, List.foldlM_cons]
      cases fillWith fs draft m with
      | error c =>
        constructor
        · intro hfold
          cases hfold
        · rintro ⟨-, hdraft⟩
          cases hdraft
      | ok d => exact ih slot d

private theorem foldlM_refill {members : List (String × Value)} {slot : Option f.kind.Slot} :
    members.foldlM (refill f) none = .ok slot ↔
      Sole (slot = none) (fun v => ∃ s, f.kind.ofValue v = .ok s ∧ slot = some s) members := by
  cases members with
  | nil =>
    constructor
    · intro h
      exact .absent (Except.ok.inj h).symm
    · rintro ⟨rfl⟩
      rfl
  | cons m members =>
    rw [List.foldlM_cons, refill]
    cases hm : f.kind.ofValue m.2 with
    | error c =>
      constructor
      · intro h
        cases h
      · rintro (_ | ⟨_, s, hs, -⟩)
        rw [hm] at hs
        cases hs
    | ok s =>
      cases members with
      | nil =>
        constructor
        · intro h
          exact .taken m ⟨s, hm, (Except.ok.inj h).symm⟩
        · rintro (_ | ⟨_, s', hs, rfl⟩)
          rw [hm] at hs
          obtain rfl := Except.ok.inj hs
          rfl
      | cons m' members =>
        constructor <;> intro h <;> cases h

private theorem complete_cons {slot : Option f.kind.Slot} {draft : Draft fs} {s : f.kind.Slot}
    {row : Row fs} : (Draft.cons slot draft).complete = .ok (Row.cons s row) ↔
      (slot = some s ∨ slot = none ∧ f.kind.absent? = some s) ∧ draft.complete = .ok row := by
  have hrest : ∀ t : f.kind.Slot, draft.complete.map (Row.cons t) = .ok (Row.cons s row) ↔
      t = s ∧ draft.complete = .ok row := by
    intro t
    cases draft.complete with
    | error c =>
      constructor
      · intro h
        cases h
      · rintro ⟨-, h⟩
        cases h
    | ok row' =>
      constructor
      · intro h
        obtain ⟨rfl, rfl⟩ := Prod.mk.inj (Except.ok.inj h)
        exact ⟨rfl, rfl⟩
      · rintro ⟨rfl, h⟩
        rw [Except.ok.inj h]
        rfl
  cases slot with
  | some t =>
    have hmap : (Draft.cons (some t) draft).complete = draft.complete.map (Row.cons t) := by
      simp only [Draft.cons, Draft.complete]
      cases draft.complete <;> rfl
    rw [hmap, hrest]
    simp
  | none =>
    cases habsent : f.kind.absent? with
    | none =>
      simp only [Draft.cons, Draft.complete, habsent]
      constructor
      · intro h
        cases h
      · simp
    | some t =>
      have hmap : (Draft.cons none draft).complete = draft.complete.map (Row.cons t) := by
        simp only [Draft.cons, Draft.complete, habsent]
        cases draft.complete <;> rfl
      rw [hmap, hrest]
      simp

/-- What a field holds: what is taken from the only member of its name, or what an
absent one holds. -/
def Holds (members : List (String × Value)) (f : Field) (s : f.kind.Slot) : Prop :=
  Sole (f.kind.absent? = some s) (fun v => f.kind.ofValue v = .ok s) (named f.name members)

private theorem exists_slot_iff (members : List (String × Value)) (s : f.kind.Slot) :
    (∃ slot, (named f.name members).foldlM (refill f) none = .ok slot ∧
      (slot = some s ∨ slot = none ∧ f.kind.absent? = some s)) ↔ Holds members f s := by
  rw [Holds]
  constructor
  · rintro ⟨slot, hslot, hs⟩
    have hsole := foldlM_refill.mp hslot
    generalize named f.name members = ms at hsole ⊢
    cases hsole with
    | absent hnone =>
      subst hnone
      exact .absent (by simpa using hs)
    | taken m hm =>
      obtain ⟨t, ht, rfl⟩ := hm
      obtain rfl : t = s := by simpa using hs
      exact .taken m ht
  · intro hsole
    generalize named f.name members = ms at hsole ⊢
    cases hsole with
    | absent h => exact ⟨none, foldlM_refill.mpr (.absent rfl), .inr ⟨rfl, h⟩⟩
    | taken m h => exact ⟨some s, foldlM_refill.mpr (.taken m ⟨s, h, rfl⟩), .inl rfl⟩

private theorem bind_complete_iff {r : Except Cause (Draft fs)} {row : Row fs} :
    r.bind Draft.complete = .ok row ↔ ∃ draft, r = .ok draft ∧ draft.complete = .ok row := by
  cases r with
  | error c =>
    constructor
    · intro h
      cases h
    · rintro ⟨_, h, -⟩
      cases h
  | ok draft =>
    constructor
    · exact fun h => ⟨draft, rfl, h⟩
    · rintro ⟨_, h, hrow⟩
      rw [Except.ok.inj h]
      exact hrow

/-- The induction is on the fields; each leaves the members of its name out for those behind it. -/
theorem complete_foldlM_iff (hfs : (fs.map Field.name).Nodup) (members : List (String × Value))
    (row : Row fs) :
    (members.foldlM (fillWith fs) (Draft.empty fs)).bind Draft.complete = .ok row ↔
      row.Each (Holds members) := by
  induction fs generalizing members with
  | nil =>
    refine iff_of_true ?_ trivial
    have hfold : members.foldlM (fillWith []) (Draft.empty []) = .ok (Draft.empty []) := by
      induction members with
      | nil => rfl
      | cons m members ih => exact ih
    rw [hfold]
    rfl
  | cons f fs ih =>
    obtain ⟨s, rest⟩ := row
    obtain ⟨hf, hfs⟩ := List.nodup_cons.mp hfs
    have hothers : rest.Each (Holds (others f.name members)) ↔ rest.Each (Holds members) := by
      refine Row.each_congr fun g hg s => ?_
      have hne : g.name ≠ f.name := fun he => hf (List.mem_map.mpr ⟨g, hg, he⟩)
      rw [Holds, Holds, named_others hne]
    have htail := hothers.symm.trans
      ((ih hfs (others f.name members) rest).symm.trans bind_complete_iff)
    have hhead := exists_slot_iff members s
    constructor
    · intro hrow
      obtain ⟨⟨slot, draft⟩, hfold, hcomplete⟩ := bind_complete_iff.mp hrow
      obtain ⟨hslot, hdraft⟩ := (foldlM_fillWith_cons members none slot _ draft).mp hfold
      obtain ⟨hs, hrest⟩ := complete_cons.mp hcomplete
      exact ⟨hhead.mp ⟨slot, hslot, hs⟩, htail.mpr ⟨draft, hdraft, hrest⟩⟩
    · rintro ⟨hsole, hrest⟩
      obtain ⟨draft, hdraft, hrest⟩ := htail.mp hrest
      obtain ⟨slot, hslot, hs⟩ := hhead.mpr hsole
      exact bind_complete_iff.mpr ⟨Draft.cons slot draft,
        (foldlM_fillWith_cons members none slot _ draft).mpr ⟨hslot, hdraft⟩,
        complete_cons.mpr ⟨hs, hrest⟩⟩

end Drafts

theorem Schema.ofMembers_iff {s : Schema} (hfs : (s.fields.map Field.name).Nodup)
    (members : List (String × Value)) (row : Row s.fields) :
    s.ofMembers members = .ok row ↔ row.Each (Holds members) := by
  rw [ofMembers_eq_fold]
  exact complete_foldlM_iff hfs members row

/-! ### Entries -/

/-- The entries of a message with these members: where `withResult` holds, a result block is told
apart, which is `result` if there was one before. -/
def Entries.ofMembers (withResult : Bool) :
    Option Result → List (String × Value) → Except Cause Entries
  | result, [] => .ok ⟨result, []⟩
  | result, (name, v) :: members =>
    if withResult && name == "Result" then
      match result with
      | some _ => .error (.duplicateField name)
      | none =>
        (Result.schema.ofValue v).bind fun row =>
          Entries.ofMembers withResult (some (Result.ofRow row)) members
    else (Entries.ofMembers withResult result members).map fun entries =>
      { entries with members := (name, v) :: entries.members }

theorem Result.no_tag : ∀ f ∈ Result.schema.fields, f.kind ≠ .tag := by
  decide

/-- How a member of a message stands in its text: as the text of its value, or, where `withResult`
holds, the result block as that of a record. -/
def Entries.Stands (withResult : Bool) (depth : Nat) (p : String × Value) (m : Member) : Prop :=
  m.name = p.1 ∧
    if withResult && p.1 == "Result" then Result.schema.Writes depth p.2 m.text
    else Spells p.2 m.text ∧ p.2.depth < depth

theorem Entries.stands_of_spells {withResult : Bool} {depth : Nat} {members : List (String × Value)}
    {laid : List Member} (h : SpellsMembers members laid)
    (hd : Value.depthMembers members < depth) :
    List.Forall₂ (Stands withResult depth) members laid := by
  induction members generalizing laid with
  | nil =>
    rw [SpellsMembers] at h
    exact h ▸ .nil
  | cons p members ih =>
    obtain ⟨name, v⟩ := p
    rw [SpellsMembers] at h
    obtain ⟨m, laid, rfl, hname, hv, hmembers⟩ := h
    rw [Value.depthMembers] at hd
    have hdepth : v.depth < depth := by omega
    refine .cons ⟨hname, ?_⟩ (ih hmembers (by omega))
    split_ifs
    · exact .value hv hdepth
    · exact ⟨hv, hdepth⟩

/-- The induction is on the members. -/
theorem readEntries_laid {withResult : Bool} {depth fuel : Nat} {first : Bool}
    {result : Option Result} {members : List (String × Value)} {laid : List Member}
    {inner more : Bytes} (h : List.Forall₂ (Entries.Stands withResult depth) members laid)
    (hl : Laid first laid inner) (hf : inner.length < fuel) :
    Matches (125 :: more) (readEntries withResult depth fuel first result (inner ++ 125 :: more))
      (Entries.ofMembers withResult result members) := by
  obtain ⟨fuel, rfl⟩ : ∃ f, fuel = f + 1 := ⟨fuel - 1, by omega⟩
  induction h generalizing inner fuel first result with
  | nil =>
    have hnext : nextName first (inner ++ 125 :: more) = .ok (.finish (125 :: more)) :=
      nextName_end hl more
    simp only [readEntries, hnext]
    exact .ok _
  | @cons p m members laid hm _ ih =>
    obtain ⟨name, v⟩ := p
    obtain ⟨rfl, hm⟩ := hm
    obtain ⟨gap, label, colon, tail, hgap, hlabel, hcolon, htail, rfl⟩ := hl
    simp only [List.length_append, List.length_cons] at hf
    obtain ⟨fuel, rfl⟩ : ∃ f, fuel = f + 1 := ⟨fuel - 1, by omega⟩
    obtain ⟨back, hback, hcolon⟩ := readColon_append hcolon (m.text ++ (tail ++ 125 :: more))
    have hends := endsNumber_laid htail more
    have hrest : ∀ result, Matches (125 :: more)
        (readEntries withResult depth (fuel + 1) false result (tail ++ 125 :: more))
        (Entries.ofMembers withResult result members) :=
      fun result => ih htail fuel (by omega)
    rw [readEntries]
    simp only [List.append_assoc, List.cons_append, nextName_before hgap,
      takes_readText hlabel _, hcolon, Entries.ofMembers, bind, Except.bind, pure, Except.pure]
    split_ifs at hm ⊢
    · cases result with
      | some r => exact .error _ _
      | none =>
        have hread := hm.read hback Result.no_tag (tail ++ 125 :: more)
        simp only
        generalize Result.schema.read depth _ = r at hread ⊢
        generalize Result.schema.ofValue v = t at hread ⊢
        cases hread with
        | ok row => exact hrest _
        | error e c => exact .error e c
    · have hread := readValue_spells hm.1 hback hm.2 hends
      have hmap := (hrest result).map fun entries : Entries =>
        { entries with members := (m.name, v) :: entries.members }
      simp only [hread]
      generalize readEntries withResult depth (fuel + 1) false result _ = r at hmap ⊢
      cases r with
      | error e => exact hmap
      | ok q => exact hmap

/-- Whether a text is that of a message with these members. -/
def MessageText (withResult : Bool) (members : List (String × Value)) (text : Bytes) : Prop :=
  ∃ laid front inner back, Blank front ∧ Blank back ∧
    List.Forall₂ (Entries.Stands withResult (maxDepth - 1)) members laid ∧ Laid true laid inner ∧
      text = front ++ 123 :: (inner ++ 125 :: back)

/-- A message is what is picked from the entries that stand in its text. -/
theorem document_readMessage_iff {α : Type} {title : String} {withResult : Bool}
    {pick : Entries → Except Cause α} {members : List (String × Value)} {text : Bytes}
    (h : MessageText withResult members text) (a : α) :
    document (readMessage title withResult pick) text = .ok a ↔
      ∃ entries, Entries.ofMembers withResult none members = .ok entries ∧
        pick entries = .ok a := by
  obtain ⟨laid, front, inner, back, hfront, hback, h, hl, rfl⟩ := h
  have hentries : Matches (125 :: back)
      (readEntries withResult (maxDepth - 1) (rounds (inner ++ 125 :: back)) true none
        (inner ++ 125 :: back))
      (Entries.ofMembers withResult none members) :=
    readEntries_laid h hl (by simp only [rounds, List.length_append]; omega)
  have hleave : leaveObject (125 :: back) = .ok back := rfl
  have hfinish : finish back = .ok () := finish_ok_iff.mpr hback
  unfold document readMessage
  rw [skipBlanks_append hfront, skipBlanks_cons (by decide)]
  simp only [bind, Except.bind, pure, Except.pure]
  generalize readEntries withResult _ _ _ _ _ = r at hentries ⊢
  generalize Entries.ofMembers withResult none members = t at hentries ⊢
  cases hentries with
  | error e c =>
    constructor
    · intro h
      cases h
    · rintro ⟨_, he, -⟩
      cases he
  | ok entries =>
    have hpick : (∃ e, (Except.ok entries : Except Cause Entries) = .ok e ∧ pick e = .ok a) ↔
        pick entries = .ok a := by
      simp
    rw [hpick]
    cases hp : pick entries with
    | error c =>
      simp only [hp, throw, throwThe, MonadExceptOf.throw, enclosed]
      constructor <;> intro h <;> cases h
    | ok b => simp only [hp, enclosed, hleave, Except.map, hfinish, Except.ok.injEq]

section Told

variable {withResult : Bool} {result : Option Result} {members : List (String × Value)}

private theorem ofMembers_other {p : String × Value} (h : (withResult && p.1 == "Result") = false) :
    Entries.ofMembers withResult result (p :: members) =
      (Entries.ofMembers withResult result members).map fun entries =>
        { entries with members := p :: entries.members } := by
  obtain ⟨name, v⟩ := p
  simp only at h
  simp [Entries.ofMembers, h]

/-- Without a result block among them, all members are entries. -/
theorem Entries.ofMembers_of_none (h : ∀ m ∈ members, (withResult && m.1 == "Result") = false) :
    Entries.ofMembers withResult result members = .ok ⟨result, members⟩ := by
  induction members with
  | nil => rfl
  | cons p members ih =>
    rw [ofMembers_other (h p List.mem_cons_self), ih fun m hm => h m (List.mem_cons_of_mem _ hm)]
    rfl

private theorem ofMembers_second {r : Result} (h : named "Result" members ≠ []) :
    ∃ c, Entries.ofMembers true (some r) members = .error c := by
  induction members with
  | nil => exact absurd rfl h
  | cons p members ih =>
    obtain ⟨name, v⟩ := p
    by_cases hname : name = "Result"
    · subst hname
      exact ⟨_, rfl⟩
    · rw [named_cons_neg hname] at h
      obtain ⟨c, hc⟩ := ih h
      refine ⟨c, ?_⟩
      rw [ofMembers_other (by simp [hname]), hc]
      rfl

private theorem others_of_named (h : named "Result" members = []) :
    (∀ m ∈ members, (true && m.1 == "Result") = false) ∧ others "Result" members = members := by
  have hne : ∀ m ∈ members, m.1 ≠ "Result" := by
    intro m hm he
    have hmem : m ∈ named "Result" members := List.mem_filter.mpr ⟨hm, by simp [he]⟩
    rw [h] at hmem
    cases hmem
  exact ⟨fun m hm => by simp [hne m hm], List.filter_eq_self.mpr fun m hm => by simp [hne m hm]⟩

/-- What the entries of an answer with these members are: there is one result block at most, which
is read, and the other members stay. -/
def Entries.Told (members : List (String × Value)) (entries : Entries) : Prop :=
  entries.members = others "Result" members ∧
    Sole (entries.result = none)
      (fun v => ∃ row, Result.schema.ofValue v = .ok row ∧ entries.result = some (Result.ofRow row))
      (named "Result" members)

/-- The first result block must be the only one. -/
private theorem told_result_iff (v : Value) (entries : Entries) :
    Entries.ofMembers true none (("Result", v) :: members) = .ok entries ↔
      Entries.Told (("Result", v) :: members) entries := by
  have hbind : Entries.ofMembers true none (("Result", v) :: members) =
      (Result.schema.ofValue v).bind fun row =>
        Entries.ofMembers true (some (Result.ofRow row)) members := rfl
  rw [hbind, Entries.Told, named_cons_pos (m := ("Result", v)) rfl,
    others_cons_pos (m := ("Result", v)) rfl]
  cases hv : Result.schema.ofValue v with
  | error c =>
    constructor
    · intro h
      cases h
    · rintro ⟨-, hsole⟩
      generalize named "Result" members = ms at hsole
      cases hsole with
      | taken _ h =>
        obtain ⟨row, hrow, -⟩ := h
        cases hv.symm.trans hrow
  | ok row =>
    change Entries.ofMembers true (some (Result.ofRow row)) members = _ ↔ _
    by_cases hnone : named "Result" members = []
    · obtain ⟨hother, hothers⟩ := others_of_named hnone
      rw [hnone, hothers, Entries.ofMembers_of_none hother]
      constructor
      · intro h
        obtain rfl := Except.ok.inj h
        exact ⟨rfl, .taken _ ⟨row, hv, rfl⟩⟩
      · rintro ⟨hmembers, ⟨⟩ | ⟨_, row', hrow, hresult⟩⟩
        obtain rfl := Except.ok.inj (hv.symm.trans hrow)
        obtain ⟨result, members'⟩ := entries
        subst hresult hmembers
        rfl
    · obtain ⟨c, hc⟩ := ofMembers_second (r := Result.ofRow row) hnone
      rw [hc]
      constructor
      · intro h
        cases h
      · rintro ⟨-, hsole⟩
        generalize named "Result" members = ms at hnone hsole
        cases hsole with
        | taken => exact absurd rfl hnone

theorem Entries.ofMembers_true_iff (entries : Entries) :
    Entries.ofMembers true none members = .ok entries ↔ entries.Told members := by
  induction members generalizing entries with
  | nil =>
    constructor
    · intro h
      obtain rfl := Except.ok.inj h
      exact ⟨rfl, .absent rfl⟩
    · rintro ⟨hmembers, ⟨hresult⟩⟩
      obtain ⟨result, members⟩ := entries
      subst hresult hmembers
      rfl
  | cons p members ih =>
    obtain ⟨name, v⟩ := p
    by_cases hname : name = "Result"
    · subst hname
      exact told_result_iff v entries
    · rw [Told, named_cons_neg hname, others_cons_neg hname, ofMembers_other (by simp [hname])]
      constructor
      · intro h
        cases hrest : Entries.ofMembers true none members with
        | error c =>
          rw [hrest] at h
          cases h
        | ok rest =>
          rw [hrest] at h
          obtain ⟨hmembers, hsole⟩ := (ih rest).mp hrest
          obtain rfl := Except.ok.inj h
          exact ⟨congrArg ((name, v) :: ·) hmembers, hsole⟩
      · rintro ⟨hmembers, hsole⟩
        rw [(ih ⟨entries.result, others "Result" members⟩).mpr ⟨rfl, hsole⟩]
        obtain ⟨result, members'⟩ := entries
        subst hmembers
        rfl

end Told

/-! ### Messages -/

theorem Tag.base_nodup : (Base.schema.fields.map Field.name).Nodup := by
  decide +kernel

theorem Tag.body_nodup (t : Tag) : (t.body.fields.map Field.name).Nodup :=
  (List.nodup_cons.mp (List.nodup_append.mp t.names_nodup).2.1).2

/-- The result block has a name of its own. -/
theorem Tag.name_ne_result (t : Tag) {f : Field} (hf : f ∈ Base.schema.fields ++ t.body.fields) :
    f.name ≠ "Result" := by
  obtain ⟨-, hbody, hbase⟩ := List.nodup_append.mp t.names_nodup
  rcases List.mem_append.mp hf with hf | hf
  · exact hbase f.name (List.mem_map.mpr ⟨f, hf, rfl⟩) "Result" List.mem_cons_self
  · intro he
    exact (List.nodup_cons.mp hbody).1 (he ▸ List.mem_map.mpr ⟨f, hf, rfl⟩)

private theorem parts_ok_iff {α : Type} {s t : Schema} (members : List (String × Value))
    (hs : (s.fields.map Field.name).Nodup) (ht : (t.fields.map Field.name).Nodup)
    (build : Row s.fields → Row t.fields → α) (a : α) :
    ((s.ofMembers members).bind fun base => (t.ofMembers members).bind fun body =>
      .ok (build base body)) = .ok a ↔
      ∃ base body, base.Each (Holds members) ∧ body.Each (Holds members) ∧ build base body = a := by
  constructor
  · intro h
    cases hbase : s.ofMembers members with
    | error c =>
      rw [hbase] at h
      cases h
    | ok base =>
      cases hbody : t.ofMembers members with
      | error c =>
        rw [hbase, hbody] at h
        cases h
      | ok body =>
        rw [hbase, hbody] at h
        exact ⟨base, body, (Schema.ofMembers_iff hs members base).mp hbase,
          (Schema.ofMembers_iff ht members body).mp hbody, Except.ok.inj h⟩
  · rintro ⟨base, body, hbase, hbody, rfl⟩
    rw [(Schema.ofMembers_iff hs members base).mpr hbase,
      (Schema.ofMembers_iff ht members body).mpr hbody]
    rfl

section Messages

variable {op : Operation} {members : List (String × Value)} {text : Bytes}

theorem Request.decode_iff (h : MessageText false members text) (r : Request op) :
    decode op text = .ok r ↔
      r.base.toRow.Each (Holds members) ∧ r.body.Each (Holds members) := by
  rw [decode, document_readMessage_iff h, Entries.ofMembers_of_none fun m _ => rfl]
  have hparts := parts_ok_iff members Tag.base_nodup op.requestTag.body_nodup
    (fun base body => (⟨Base.ofRow base, body⟩ : Request op)) r
  constructor
  · rintro ⟨entries, he, hr⟩
    obtain rfl := Except.ok.inj he
    obtain ⟨base, body, hbase, hbody, rfl⟩ := hparts.mp hr
    exact ⟨hbase, hbody⟩
  · rintro ⟨hbase, hbody⟩
    exact ⟨_, rfl, hparts.mpr ⟨r.base.toRow, r.body, hbase, hbody, rfl⟩⟩

private theorem each_others (members : List (String × Value)) {fs : List Field}
    (hne : ∀ f ∈ fs, f.name ≠ "Result") (row : Row fs) :
    row.Each (Holds (others "Result" members)) ↔ row.Each (Holds members) := by
  refine Row.each_congr fun f hf s => ?_
  rw [Holds, Holds, named_others (hne f hf)]

theorem Answer.decode_iff (h : MessageText true members text) (a : Answer op) :
    decode op text = .ok a ↔
      a.base.toRow.Each (Holds members) ∧ a.body.Each (Holds members) ∧
        Sole (a.result = .missing) (fun v => Result.schema.ofValue v = .ok a.result.toRow)
          (named "Result" members) := by
  rw [decode, document_readMessage_iff h]
  have hname : ∀ f ∈ Base.schema.fields ++ op.answerTag.body.fields, f.name ≠ "Result" :=
    fun f hf => op.answerTag.name_ne_result hf
  have hbase := each_others members
    (fun f hf => hname f (List.mem_append_left _ hf)) a.base.toRow
  have hbody := each_others members
    (fun f hf => hname f (List.mem_append_right _ hf)) a.body
  have hparts := fun result => parts_ok_iff (others "Result" members) Tag.base_nodup
    op.answerTag.body_nodup (fun base body => (⟨Base.ofRow base, result, body⟩ : Answer op)) a
  rw [← hbase, ← hbody]
  constructor
  · rintro ⟨entries, he, ha⟩
    obtain ⟨hmembers, hsole⟩ := (Entries.ofMembers_true_iff entries).mp he
    obtain ⟨result, members'⟩ := entries
    simp only at hmembers hsole
    subst hmembers
    obtain ⟨base, body, hb, hb', rfl⟩ := (hparts (result.getD .missing)).mp ha
    refine ⟨hb, hb', ?_⟩
    generalize named "Result" members = ms at hsole ⊢
    cases hsole with
    | absent hnone =>
      subst hnone
      exact .absent rfl
    | taken m hm =>
      obtain ⟨row, hrow, rfl⟩ := hm
      exact .taken m hrow
  · rintro ⟨hb, hb', hsole⟩
    have htold : ∃ result, result.getD .missing = a.result ∧
        Entries.Told members ⟨result, others "Result" members⟩ := by
      simp only [Entries.Told, true_and]
      generalize named "Result" members = ms at hsole ⊢
      cases hsole with
      | absent h => exact ⟨none, h.symm, .absent rfl⟩
      | taken m hm => exact ⟨some a.result, rfl, .taken m ⟨_, hm, rfl⟩⟩
    obtain ⟨result, hresult, htold⟩ := htold
    refine ⟨_, (Entries.ofMembers_true_iff _).mpr htold, ?_⟩
    refine (hparts (result.getD .missing)).mpr ⟨a.base.toRow, a.body, hb, hb', ?_⟩
    rw [hresult]
    rfl

end Messages

end Roaming
