import Roaming.Message.Record
import Roaming.Proofs.Contents

/-!
# Records are read back

A row is written as an object whose members are the contents that are not left out (`Row.values`). A
reader fills a draft with one field after the other; after some names it has seen what the row holds
under these names (`Row.seen`), and in the end all of it.
-/

set_option autoImplicit false
set_option relaxedAutoImplicit false

namespace Roaming

open Roaming.Text (Bytes utf8)
open Roaming.Json

namespace Row

/-- Whether something holds of the content of every field. -/
def All (P : (k : Kind) → k.Slot → Prop) {fs : List Field} (r : Row fs) : Prop :=
  match fs, r with
  | [], () => True
  | f :: _, (s, rest) => P f.kind s ∧ rest.All P

/-- Whether a field has this name and something holds of its content. -/
def Has (name : String) (P : (k : Kind) → k.Slot → Prop) {fs : List Field} (r : Row fs) : Prop :=
  match fs, r with
  | [], () => False
  | f :: _, (s, rest) => f.name = name ∧ P f.kind s ∨ rest.Has name P

/-- The members that a row is written as. -/
def values {fs : List Field} (r : Row fs) : List (String × Value) :=
  match fs, r with
  | [], () => []
  | f :: _, (s, rest) =>
    match f.kind.value? s with
    | some v => (f.name, v) :: rest.values
    | none => rest.values

/-- The draft of a reader that has come to the fields with certain names. -/
def seen (p : String → Bool) {fs : List Field} (r : Row fs) : Draft fs :=
  match fs, r with
  | [], () => ()
  | f :: _, (s, rest) => (if p f.name then some s else none, rest.seen p)

variable {fs : List Field} {P Q : (k : Kind) → k.Slot → Prop} {name : String}

theorem print_eq (r : Row fs) : r.print = r.values.map fun m => (m.1, m.2.print) := by
  induction fs with
  | nil => rfl
  | cons f fs ih =>
    obtain ⟨s, rest⟩ := r
    rw [print, values, Kind.print?_eq]
    cases f.kind.value? s with
    | none => exact ih rest
    | some v => exact congrArg _ (ih rest)

theorem names_values (r : Row fs) : (r.values.map (·.1)).Sublist (fs.map Field.name) := by
  induction fs with
  | nil => exact List.nil_sublist _
  | cons f fs ih =>
    obtain ⟨s, rest⟩ := r
    rw [values]
    cases f.kind.value? s with
    | none => exact (ih rest).cons _
    | some v => exact (ih rest).cons_cons _

theorem Has.imp {r : Row fs} (h : r.Has name P) (hPQ : ∀ k s, P k s → Q k s) : r.Has name Q := by
  induction fs with
  | nil => exact h
  | cons f fs ih =>
    obtain ⟨s, rest⟩ := r
    rcases h with hf | hr
    · exact .inl ⟨hf.1, hPQ _ _ hf.2⟩
    · exact .inr (ih hr)

theorem Has.and_all {r : Row fs} (h : r.Has name P) (hall : r.All Q) :
    r.Has name fun k s => P k s ∧ Q k s := by
  induction fs with
  | nil => exact h
  | cons f fs ih =>
    obtain ⟨s, rest⟩ := r
    obtain ⟨hs, hrest⟩ := hall
    rcases h with hf | hr
    · exact .inl ⟨hf.1, hf.2, hs⟩
    · exact .inr (ih hr hrest)

theorem Has.exists {r : Row fs} (h : r.Has name P) : ∃ k s, P k s := by
  induction fs with
  | nil => exact h.elim
  | cons f fs ih =>
    obtain ⟨s, rest⟩ := r
    rcases h with hf | hr
    · exact ⟨_, _, hf.2⟩
    · exact ih hr

theorem Has.mem {r : Row fs} (h : r.Has name P) : name ∈ fs.map Field.name := by
  induction fs with
  | nil => exact h.elim
  | cons f fs ih =>
    obtain ⟨s, rest⟩ := r
    rcases h with hf | hr
    · exact List.mem_cons.mpr (.inl hf.1.symm)
    · exact List.mem_cons_of_mem _ (ih hr)

theorem has_of_mem_values {r : Row fs} {m : String × Value} (h : m ∈ r.values) :
    r.Has m.1 fun k s => k.value? s = some m.2 := by
  induction fs with
  | nil => cases h
  | cons f fs ih =>
    obtain ⟨s, rest⟩ := r
    rw [values] at h
    cases hv : f.kind.value? s with
    | none =>
      rw [hv] at h
      exact .inr (ih h)
    | some v =>
      rw [hv] at h
      rcases List.mem_cons.mp h with rfl | hm
      · exact .inl ⟨rfl, hv⟩
      · exact .inr (ih hm)

/-! ### Drafts -/

variable {p q : String → Bool}

theorem seen_none (r : Row fs) : r.seen (fun _ => false) = Draft.empty fs := by
  induction fs with
  | nil => rfl
  | cons f fs ih =>
    obtain ⟨s, rest⟩ := r
    exact congrArg (Prod.mk none) (ih rest)

theorem seen_congr (r : Row fs) (h : ∀ n ∈ fs.map Field.name, p n = q n) : r.seen p = r.seen q := by
  induction fs with
  | nil => rfl
  | cons f fs ih =>
    obtain ⟨s, rest⟩ := r
    rw [seen, seen, h f.name List.mem_cons_self,
      ih rest fun n hn => h n (List.mem_cons_of_mem _ hn)]

section Fill

variable {ε β : Type} {again : ε} {read : (k : Kind) → Except ε (k.Slot × β)}

/-- A name that no field has changes nothing. -/
theorem fill?_foreign (d : Draft fs) (h : name ∉ fs.map Field.name) :
    Draft.fill? name again read fs d = .ok none := by
  induction fs with
  | nil => rfl
  | cons f fs ih =>
    obtain ⟨slot, rest⟩ := d
    have hname : f.name ≠ name := fun he => h (List.mem_cons.mpr (.inl he.symm))
    simp only [Draft.fill?, if_neg hname, ih rest fun hn => h (List.mem_cons_of_mem _ hn)]
    rfl

/-- A field whose content is read is seen from then on. -/
theorem fill?_seen {r : Row fs} {b : β} (hfs : (fs.map Field.name).Nodup) (hp : p name = false)
    (h : r.Has name fun k s => read k = .ok (s, b)) :
    Draft.fill? name again read fs (r.seen p) =
      .ok (some (r.seen fun n => p n || n == name, b)) := by
  induction fs with
  | nil => exact h.elim
  | cons f fs ih =>
    obtain ⟨s, rest⟩ := r
    obtain ⟨hf, hfs⟩ := List.nodup_cons.mp hfs
    simp only [seen, Draft.fill?]
    by_cases hname : f.name = name
    · have hread : read f.kind = .ok (s, b) := by
        rcases h with h | h
        · exact h.2
        · exact absurd (hname ▸ h.mem) hf
      have hrest : rest.seen p = rest.seen fun n => p n || n == name := by
        refine seen_congr rest fun n hn => ?_
        have hne : n ≠ name := fun he => hf (hname ▸ he ▸ hn)
        simp [hne]
      simp only [← hrest, hname, hp, hread, beq_self_eq_true, Bool.or_true, if_true,
        Bool.false_eq_true, if_false]
      rfl
    · have hrest : rest.Has name fun k s => read k = .ok (s, b) := by
        rcases h with h | h
        · exact absurd h.1 hname
        · exact h
      simp only [if_neg hname, ih hfs hrest, beq_eq_false_iff_ne.mpr hname, Bool.or_false]
      rfl

end Fill

/-- A draft is complete once everything that is written has been seen: what is left out is what an
absent field holds. -/
theorem complete_seen {r : Row fs} (h : ∀ m ∈ r.values, p m.1 = true) :
    (r.seen p).complete = .ok r := by
  induction fs with
  | nil => rfl
  | cons f fs ih =>
    obtain ⟨s, rest⟩ := r
    have hrest : ∀ m ∈ rest.values, p m.1 = true := by
      intro m hm
      apply h m
      rw [values]
      split
      · exact List.mem_cons_of_mem _ hm
      · exact hm
    have hslot : p f.name = true ∨ f.kind.absent? = some s := by
      cases hv : f.kind.value? s with
      | none => exact .inr (Kind.absent?_of_value? hv)
      | some v =>
        refine .inl (h (f.name, v) ?_)
        rw [values, hv]
        exact List.mem_cons_self
    cases hp : p f.name with
    | true =>
      simp only [seen, Draft.complete, ih hrest, hp]
      rfl
    | false =>
      rw [hp] at hslot
      simp only [seen, Draft.complete, ih hrest, hp, hslot.resolve_left Bool.false_ne_true]
      rfl

end Row

/-! ### From members that were read before -/

section Members

variable {fs : List Field} {r : Row fs} {p : String → Bool}

/-- The draft after one more member. -/
def fillWith (fs : List Field) (draft : Draft fs) (m : String × Value) :
    Except Cause (Draft fs) := do
  let filled ← Draft.fill? m.1 (.duplicateField m.1)
    (fun k => (k.ofValue m.2).map (fun s => (s, ()))) fs draft
  return match filled with
    | some (draft, ()) => draft
    | none => draft

private theorem fillWith_seen {m : String × Value} (hfs : (fs.map Field.name).Nodup)
    (hall : r.All fun k s => k.Survives s) (hp : p m.1 = false)
    (hm : m.1 ∈ fs.map Field.name → m ∈ r.values) :
    fillWith fs (r.seen p) m = .ok (r.seen fun n => p n || n == m.1) := by
  by_cases hname : m.1 ∈ fs.map Field.name
  · have hread : r.Has m.1 fun k s => (k.ofValue m.2).map (fun s => (s, ())) = .ok (s, ()) := by
      refine ((Row.has_of_mem_values (hm hname)).and_all hall).imp fun k s hs => ?_
      rw [Kind.ofValue_value? hs.1 hs.2]
      rfl
    rw [fillWith, Row.fill?_seen hfs hp hread]
    rfl
  · have hsame : r.seen p = r.seen fun n => p n || n == m.1 := by
      refine r.seen_congr fun n hn => ?_
      have hne : n ≠ m.1 := fun he => hname (he ▸ hn)
      simp [hne]
    rw [fillWith, Row.fill?_foreign _ hname, ← hsame]
    rfl

/-- The induction is on the members, with those before them in the names that were seen. -/
private theorem foldlM_fillWith {members : List (String × Value)}
    (hfs : (fs.map Field.name).Nodup) (hall : r.All fun k s => k.Survives s)
    (hp : ∀ m ∈ members, p m.1 = false) (hnames : (members.map (·.1)).Nodup)
    (hown : ∀ m ∈ members, m.1 ∈ fs.map Field.name → m ∈ r.values) :
    members.foldlM (fillWith fs) (r.seen p) =
      .ok (r.seen fun n => p n || (members.map (·.1)).contains n) := by
  induction members generalizing p with
  | nil =>
    have hsame : r.seen p = r.seen fun n => p n || ([] : List String).contains n := by
      exact r.seen_congr fun n _ => by simp
    exact congrArg Except.ok hsame
  | cons m members ih =>
    obtain ⟨hm, hnames⟩ := List.nodup_cons.mp hnames
    have hfill := fillWith_seen hfs hall (hp m List.mem_cons_self) (hown m List.mem_cons_self)
    have hrest : ∀ m' ∈ members, (p m'.1 || m'.1 == m.1) = false := by
      intro m' hm'
      have hne : m'.1 ≠ m.1 := fun he => hm (List.mem_map.mpr ⟨m', hm', he⟩)
      simp [hp m' (List.mem_cons_of_mem _ hm'), hne]
    rw [List.foldlM_cons, hfill]
    change members.foldlM (fillWith fs) _ = _
    rw [ih hrest hnames fun m' hm' => hown m' (List.mem_cons_of_mem _ hm')]
    refine congrArg Except.ok (r.seen_congr fun n _ => ?_)
    simp [Bool.or_assoc]

end Members

namespace Schema

variable {s : Schema}

theorem ofMembers_eq_fold (members : List (String × Value)) :
    s.ofMembers members =
      (members.foldlM (fillWith s.fields) (Draft.empty s.fields)).bind Draft.complete := by
  refine congrArg (fun step : Draft s.fields → String × Value → Except Cause (Draft s.fields) =>
    Except.bind (members.foldlM step (Draft.empty s.fields)) Draft.complete)
    (funext fun draft => funext fun m => ?_)
  refine congrArg (Except.bind _) (funext fun filled => ?_)
  cases filled <;> rfl

/-- A row is taken from any members among which its own are, each name once; members of other names
do not matter. -/
theorem ofMembers_eq {r : Row s.fields} {members : List (String × Value)}
    (hfs : (s.fields.map Field.name).Nodup) (hall : r.All fun k s => k.Survives s)
    (hnames : (members.map (·.1)).Nodup) (hvalues : ∀ m ∈ r.values, m ∈ members)
    (hown : ∀ m ∈ members, m.1 ∈ s.fields.map Field.name → m ∈ r.values) :
    s.ofMembers members = .ok r := by
  have hfold := foldlM_fillWith (p := fun _ => false) hfs hall (fun _ _ => rfl) hnames hown
  rw [Row.seen_none] at hfold
  rw [ofMembers_eq_fold, hfold]
  refine Row.complete_seen fun m hm => ?_
  have hmem : m.1 ∈ members.map (·.1) := List.mem_map.mpr ⟨m, hvalues m hm, rfl⟩
  simpa using hmem

end Schema

/-! ### From a text -/

section Text

variable {fs : List Field} {r : Row fs} {p : String → Bool} {depth fuel : Nat} {rest : Bytes}

theorem printObject_eq (members : List (String × Value)) :
    printObject (members.map fun m => (m.1, m.2.print)) = (Value.object members).print := by
  have hmembers : ",".intercalate ((members.map fun m => (m.1, m.2.print)).map
      fun m => printText m.1 ++ ":" ++ m.2) = Value.printMembers members := by
    induction members with
    | nil => rfl
    | cons m members ih =>
      obtain ⟨name, v⟩ := m
      cases members with
      | nil => simp [Value.printMembers]
      | cons n members =>
        rw [Value.printMembers, ← ih]
        · simp [String.intercalate_cons_cons]
        · simp
  rw [printObject, hmembers, Value.print]

/-- A name is read together with the colon behind it. -/
theorem readText_memberBytes (m : String × Value) (more : Bytes) :
    readText (memberBytes m ++ more) = .ok (m.1, 58 :: (utf8 m.2.print ++ more)) := by
  rw [memberBytes, List.append_assoc]
  exact readText_escaped m.1 _

private theorem readFields_cons {first : Bool} {m : String × Value} {text more : Bytes}
    {draft draft' : Draft fs} (hnext : nextName first text = .ok (.name (memberBytes m ++ more)))
    (hfill : Draft.fill? m.1 (Fault.loose (.duplicateField m.1) (58 :: (utf8 m.2.print ++ more)))
      (fun k => k.read depth (utf8 m.2.print ++ more)) fs draft = .ok (some (draft', more))) :
    readFields fs depth (fuel + 1) first draft text =
      readFields fs depth fuel false draft' more := by
  have hcolon : readColon (58 :: (utf8 m.2.print ++ more)) = .ok (utf8 m.2.print ++ more) := rfl
  simp only [readFields, hnext, readText_memberBytes, hcolon, hfill, bind, Except.bind]

private theorem readFields_more {members : List (String × Value)}
    (hfs : (fs.map Field.name).Nodup) (hall : r.All fun k s => k.Survives s)
    (hp : ∀ m ∈ members, p m.1 = false) (hnames : (members.map (·.1)).Nodup)
    (hvalues : ∀ m ∈ members, m ∈ r.values) (hdepth : ∀ m ∈ members, m.2.depth < depth)
    (hfuel : members.length < fuel) :
    readFields fs depth fuel false (r.seen p) (moreMembers members ++ 125 :: rest) =
      .ok (r.seen fun n => p n || (members.map (·.1)).contains n, 125 :: rest) := by
  induction members generalizing p fuel with
  | nil =>
    obtain ⟨fuel, rfl⟩ : ∃ f, fuel = f + 1 := ⟨fuel - 1, by omega⟩
    have hsame : r.seen p = r.seen fun n => p n || ([] : List String).contains n := by
      exact r.seen_congr fun n _ => by simp
    exact congrArg (fun draft => Except.ok (draft, 125 :: rest)) hsame
  | cons m members ih =>
    rw [List.length_cons] at hfuel
    obtain ⟨fuel, rfl⟩ : ∃ f, fuel = f + 1 := ⟨fuel - 1, by omega⟩
    obtain ⟨hm, hnames⟩ := List.nodup_cons.mp hnames
    have hnext : nextName false (moreMembers (m :: members) ++ 125 :: rest) =
        .ok (.name (memberBytes m ++ (moreMembers members ++ 125 :: rest))) := by
      rw [moreMembers_cons, List.cons_append, List.cons_append, List.append_assoc]
      rfl
    have hread : r.Has m.1 fun k s =>
        k.read depth (utf8 m.2.print ++ (moreMembers members ++ 125 :: rest)) =
          .ok (s, moreMembers members ++ 125 :: rest) := by
      have hhas := (Row.has_of_mem_values (hvalues m List.mem_cons_self)).and_all hall
      exact hhas.imp fun k s hs => Kind.read_value? hs.1 hs.2 (hdepth m List.mem_cons_self)
        (endsNumber_moreMembers members rest)
    have hrest : ∀ m' ∈ members, (p m'.1 || m'.1 == m.1) = false := by
      intro m' hm'
      have hne : m'.1 ≠ m.1 := fun he => hm (List.mem_map.mpr ⟨m', hm', he⟩)
      simp [hp m' (List.mem_cons_of_mem _ hm'), hne]
    rw [readFields_cons hnext (Row.fill?_seen hfs (hp m List.mem_cons_self) hread),
      ih hrest hnames (fun m' hm' => hvalues m' (List.mem_cons_of_mem _ hm'))
        (fun m' hm' => hdepth m' (List.mem_cons_of_mem _ hm')) (by omega)]
    refine congrArg (fun draft => Except.ok (draft, 125 :: rest)) (r.seen_congr fun n _ => ?_)
    simp [Bool.or_assoc]

/-- Only the first name stands without a comma before it. -/
private theorem readFields_first (draft : Draft fs) (members : List (String × Value)) :
    readFields fs depth (fuel + 1) true draft (objectBytes members ++ 125 :: rest) =
      readFields fs depth (fuel + 1) false draft (moreMembers members ++ 125 :: rest) := by
  cases members with
  | nil => rfl
  | cons m members =>
    rw [moreMembers_cons]
    rfl

theorem Schema.print_eq (s : Schema) (r : Row s.fields) :
    s.print r = (Value.object r.values).print := by
  rw [Schema.print, Row.print_eq, printObject_eq]

/-- A record is read back from its compact text. -/
theorem Schema.read_print {s : Schema} {r : Row s.fields} (hfs : (s.fields.map Field.name).Nodup)
    (hall : r.All fun k c => k.Survives c) (hd : 1 < depth)
    (hdepth : ∀ m ∈ r.values, m.2.depth < depth - 1) :
    s.read depth (utf8 (s.print r) ++ rest) = .ok (r, rest) := by
  have hnames : (r.values.map (·.1)).Nodup := r.names_values.nodup hfs
  have hread : readFields s.fields (depth - 1) (rounds (objectBytes r.values ++ 125 :: rest)) true
      (Draft.empty s.fields) (objectBytes r.values ++ 125 :: rest) =
      .ok (r.seen fun n => (r.values.map (·.1)).contains n, 125 :: rest) := by
    rw [rounds, readFields_first, ← r.seen_none,
      readFields_more hfs hall (fun _ _ => rfl) hnames (fun _ hm => hm) hdepth]
    · rfl
    · have := length_le_objectBytes r.values
      simp only [List.length_append]
      omega
  have hcomplete : (r.seen fun n => (r.values.map (·.1)).contains n).complete = .ok r := by
    refine Row.complete_seen fun m hm => ?_
    have hmem : m.1 ∈ r.values.map (·.1) := List.mem_map.mpr ⟨m, hm, rfl⟩
    simpa using hmem
  rw [s.print_eq, utf8_print_object, List.cons_append, List.append_assoc]
  change (if depth ≤ 1 then _ else _) = _
  rw [if_neg (by omega), List.singleton_append, hread]
  simp only [bind, Except.bind, hcomplete]
  rfl

end Text

end Roaming
