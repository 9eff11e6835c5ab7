import Roaming.Proofs.Members

/-!
# What accepted payloads look like

Every text that is decoded as a payload is that of a message: an object in whose members there
are values, and, in an answer, a result block, in whose foreign members there may be anything
that is passed over.
-/

set_option autoImplicit false
set_option relaxedAutoImplicit false

namespace Roaming

open Roaming.Text (Bytes)
open Roaming.Json

/-! ### Contents -/

section Contents

variable {text rest : Bytes}

private theorem readTextField_cut {wanted : Wanted} {s : String}
    (h : readTextField wanted text = .ok (s, rest)) :
    ∃ gap own, Blank gap ∧ Spells (.text s) own ∧ text = gap ++ (own ++ rest) := by
  unfold readTextField at h
  split at h
  · next tail hskip =>
    obtain ⟨gap, hgap, rfl⟩ := exists_blank_of_cons hskip
    obtain ⟨label, rfl, htakes, -⟩ := readText_cut h
    have hlabel := htakes []
    rw [List.append_nil] at hlabel
    refine ⟨gap, 34 :: label, hgap, ?_, rfl⟩
    rw [Spells]
    exact ⟨label, hlabel, rfl⟩
  · exact absurd h (refuse_ne_ok _ _ _)

/-- A code or a label is read from a text. -/
private theorem read_cut {k : Kind} {depth : Nat} {s : k.Slot} (hk : k = .code ∨ k = .label)
    (h : k.read depth text = .ok (s, rest)) :
    ∃ gap own v, Blank gap ∧ Spells v own ∧ v.depth = 0 ∧ text = gap ++ (own ++ rest) := by
  rcases hk with rfl | rfl
  · obtain ⟨p, hp, hs⟩ := exists_of_map_ok h
    obtain ⟨-, rfl⟩ := Prod.mk.inj hs
    obtain ⟨gap, own, hgap, hspells, htext⟩ := readTextField_cut hp
    exact ⟨gap, own, _, hgap, hspells, by rw [Value.depth], htext⟩
  · obtain ⟨gap, own, hgap, hspells, htext⟩ := readTextField_cut h
    exact ⟨gap, own, _, hgap, hspells, by rw [Value.depth], htext⟩

end Contents

/-! ### Records -/

section Records

variable {fs : List Field} {depth : Nat} {text rest : Bytes}

section Fill

variable {ε β : Type} {name : String} {again : ε} {read : (k : Kind) → Except ε (k.Slot × β)}

private theorem fill?_own {draft draft' : Draft fs} {b : β}
    (h : Draft.fill? name again read fs draft = .ok (some (draft', b))) :
    ∃ f ∈ fs, f.name = name ∧ ∃ s, read f.kind = .ok (s, b) := by
  induction fs with
  | nil => cases h
  | cons f fs ih =>
    obtain ⟨slot, draft⟩ := draft
    simp only [Draft.fill?] at h
    split at h
    · next hname =>
      cases slot with
      | some s => cases h
      | none =>
        obtain ⟨p, hread, hp⟩ := exists_of_map_ok h
        obtain ⟨-, rfl⟩ := Prod.mk.inj (Option.some.inj hp)
        exact ⟨f, List.mem_cons_self, hname, p.1, hread⟩
    · obtain ⟨r, hrest, hr⟩ := exists_of_map_ok h
      obtain ⟨p, rfl, hp⟩ := Option.map_eq_some_iff.mp hr
      obtain ⟨-, rfl⟩ := Prod.mk.inj hp
      obtain ⟨g, hg, hname, hread⟩ := ih hrest
      exact ⟨g, List.mem_cons_of_mem _ hg, hname, hread⟩

private theorem fill?_foreign_name {draft : Draft fs}
    (h : Draft.fill? name again read fs draft = .ok none) : name ∉ fs.map Field.name := by
  induction fs with
  | nil => exact List.not_mem_nil
  | cons f fs ih =>
    obtain ⟨slot, draft⟩ := draft
    simp only [Draft.fill?] at h
    split at h
    · cases slot with
      | some s => cases h
      | none =>
        obtain ⟨p, -, hp⟩ := exists_of_map_ok h
        cases hp
    · next hname =>
      obtain ⟨r, hrest, hr⟩ := exists_of_map_ok h
      obtain rfl := Option.map_eq_none_iff.mp hr
      intro hmem
      rcases List.mem_cons.mp hmem with he | hmem
      · exact hname he.symm
      · exact ih hrest hmem

end Fill

/-- The text of a member, in front of those that are laid out behind it. -/
private theorem exists_laid {first : Bool} {name : String} {left left' back own inner : Bytes}
    {laid : List Member} (hnext : nextName first text = .ok (.name left))
    (hname : readText left = .ok (name, left'))
    (hcolon : readColon left' = .ok (back ++ (own ++ (inner ++ rest)))) (hback : Blank back)
    (hlaid : Laid false laid inner) :
    ∃ inner', Laid first (⟨name, own⟩ :: laid) inner' ∧ text = inner' ++ rest := by
  obtain ⟨gap, hgap, rfl⟩ := exists_before_of_name hnext
  obtain ⟨label, rfl, htakes, -⟩ := readText_cut hname
  obtain ⟨front, hfront, rfl⟩ := exists_colon hcolon
  have hlabel := htakes []
  rw [List.append_nil] at hlabel
  exact ⟨gap ++ 34 :: (label ++ (front ++ 58 :: back ++ (own ++ inner))),
    ⟨gap, label, front ++ 58 :: back, inner, hgap, hlabel, ⟨front, back, hfront, hback, rfl⟩,
    hlaid, rfl⟩, by simp⟩

/-- The induction is on the rounds of the reader. -/
private theorem readFields_cut {fuel : Nat} {first : Bool} {draft draft' : Draft fs}
    (htexts : ∀ f ∈ fs, f.kind = .code ∨ f.kind = .label) (hd : 0 < depth)
    (h : readFields fs depth fuel first draft text = .ok (draft', rest)) :
    ∃ members laid inner more, List.Forall₂ (FieldStands fs depth) members laid ∧
      Laid first laid inner ∧ text = inner ++ rest ∧ rest = 125 :: more := by
  induction fuel generalizing text first draft with
  | zero => cases h
  | succ fuel ih =>
    simp only [readFields, bind] at h
    obtain ⟨next, hnext, hread⟩ := exists_of_bind_ok h
    clear h
    cases next with
    | finish left =>
      obtain ⟨rfl, rfl⟩ := Prod.mk.inj (Except.ok.inj hread)
      obtain ⟨gap, more, hgap, htext, hrest⟩ := exists_blank_of_close hnext
      exact ⟨[], [], gap, more, .nil, hgap, htext, hrest⟩
    | name left =>
      obtain ⟨⟨name, left'⟩, hname, hfilled⟩ := exists_of_bind_ok hread
      obtain ⟨filled, hfill, hmore⟩ := exists_of_bind_ok hfilled
      clear hread hfilled
      cases filled with
      | some p =>
        obtain ⟨draft₁, after⟩ := p
        obtain ⟨f, hf, rfl, s, hcontent⟩ := fill?_own hfill
        obtain ⟨left'', hcolon, hcontent⟩ := exists_of_bind_ok hcontent
        obtain ⟨members, laid, inner, more, hmembers, hlaid, rfl, hrest⟩ := ih hmore
        obtain ⟨back, own, v, hback, hv, hdepth, rfl⟩ := read_cut (htexts f hf) hcontent
        obtain ⟨inner', hlaid', htext⟩ := exists_laid hnext hname hcolon hback hlaid
        have hstands : FieldStands fs depth (f.name, v) ⟨f.name, own⟩ :=
          ⟨rfl, hv.passable, fun _ => ⟨hv, show v.depth < depth by omega⟩⟩
        exact ⟨_, _, inner', more, .cons hstands hmembers, hlaid', htext, hrest⟩
      | none =>
        have hforeign := fill?_foreign_name hfill
        obtain ⟨left'', hcolon, hskipped⟩ := exists_of_bind_ok hmore
        obtain ⟨after, hskip, hmore⟩ := exists_of_bind_ok hskipped
        obtain ⟨members, laid, inner, more, hmembers, hlaid, rfl, hrest⟩ := ih hmore
        obtain ⟨back, own, hback, hown, rfl⟩ := skipValue_cut hskip
        obtain ⟨inner', hlaid', htext⟩ := exists_laid hnext hname hcolon hback hlaid
        have hstands : FieldStands fs depth (name, .null) ⟨name, own⟩ :=
          ⟨rfl, hown, fun hmem => absurd hmem hforeign⟩
        exact ⟨_, _, inner', more, .cons hstands hmembers, hlaid', htext, hrest⟩

/-- At the end of a list the fields that are left are absent. -/
private theorem readPositions_end {title : String} {count index : Nat} {first : Bool} {row : Row fs}
    {left : Bytes}
    (h : readPositions title count depth fs index first (93 :: left) = .ok (row, rest)) :
    rest = 93 :: left := by
  induction fs generalizing index with
  | nil => exact (Prod.mk.inj (Except.ok.inj h)).2.symm
  | cons f fs ih =>
    have hnext : nextItem first (93 :: left) = .ok (.finish (93 :: left)) :=
      nextItem_end blank_nil left
    simp only [readPositions, hnext, bind, Except.bind] at h
    split at h
    · cases h
    · obtain ⟨⟨row', left'⟩, hrow, hp⟩ := exists_of_bind_ok h
      obtain ⟨-, rfl⟩ := Prod.mk.inj (Except.ok.inj hp)
      exact ih hrow

private theorem exists_blank_of_leaveList {left : Bytes} (h : leaveList left = .ok rest) :
    ∃ gap, Blank gap ∧ left = gap ++ 93 :: rest := by
  unfold leaveList at h
  split at h
  · cases h
  · next more hskip =>
    obtain rfl := Except.ok.inj h
    exact exists_blank_of_cons hskip
  · split at h <;> cases h
  · cases h

/-- The induction is on the fields, for which there are items from the front of the list on. -/
private theorem readPositions_cut {title : String} {count index : Nat} {first : Bool} {row : Row fs}
    {left : Bytes} (htexts : ∀ f ∈ fs, f.kind = .code ∨ f.kind = .label) (hd : 0 < depth)
    (h : readPositions title count depth fs index first text = .ok (row, left))
    (hleave : leaveList left = .ok rest) :
    ∃ items owns inner, SpellsItems items owns ∧ Listed first owns inner ∧
      Value.depthAll items < depth ∧ text = inner ++ 93 :: rest := by
  induction fs generalizing text first index with
  | nil =>
    obtain ⟨-, rfl⟩ := Prod.mk.inj (Except.ok.inj h)
    obtain ⟨gap, hgap, htext⟩ := exists_blank_of_leaveList hleave
    exact ⟨[], [], gap, by rw [SpellsItems], hgap, hd, htext⟩
  | cons f fs ih =>
    simp only [readPositions, bind] at h
    obtain ⟨next, hnext, hread⟩ := exists_of_bind_ok h
    clear h
    cases next with
    | finish left' =>
      simp only at hread
      split at hread
      · cases hread
      · obtain ⟨⟨row', left''⟩, hrow, hp⟩ := exists_of_bind_ok hread
        obtain ⟨-, rfl⟩ := Prod.mk.inj (Except.ok.inj hp)
        obtain ⟨gap, more, hgap, rfl, rfl⟩ := exists_blank_of_end hnext
        obtain rfl := readPositions_end hrow
        obtain rfl := Except.ok.inj hleave
        exact ⟨[], [], gap, by rw [SpellsItems], hgap, hd, rfl⟩
    | item left' =>
      obtain ⟨⟨s, after⟩, hcontent, hmore⟩ := exists_of_bind_ok hread
      obtain ⟨⟨row', left''⟩, hrow, hp⟩ := exists_of_bind_ok hmore
      obtain ⟨-, rfl⟩ := Prod.mk.inj (Except.ok.inj hp)
      obtain ⟨gap, hgap, rfl⟩ := exists_before_of_item hnext
      obtain ⟨back, own, v, hback, hv, hdepth, rfl⟩ :=
        read_cut (htexts f List.mem_cons_self) hcontent
      obtain ⟨items, owns, inner, hitems, hlisted, hall, rfl⟩ :=
        ih (fun g hg => htexts g (List.mem_cons_of_mem _ hg)) hrow
      refine ⟨v :: items, own :: owns, gap ++ back ++ (own ++ inner), ?_, ?_, ?_, by simp⟩
      · rw [SpellsItems]
        exact ⟨own, owns, rfl, hv, hitems⟩
      · exact ⟨gap ++ back, inner, hgap.append hback, hlisted, rfl⟩
      · rw [Value.depthAll]
        omega

private theorem enclosed_ok {α : Type} {leave : Bytes → Except Fault Bytes} {after : Bytes → Bytes}
    {r : Except Fault (α × Bytes)} {a : α} (h : enclosed leave after r = .ok (a, rest)) :
    ∃ left, r = .ok (a, left) ∧ leave left = .ok rest := by
  cases r with
  | error e => cases h
  | ok p =>
    obtain ⟨left, hleave, hp⟩ := exists_of_map_ok h
    obtain ⟨rfl, rfl⟩ := Prod.mk.inj hp
    exact ⟨p.2, rfl, hleave⟩

/-- What is read as a record of texts is the text of one. -/
theorem Schema.read_cut {s : Schema} {row : Row s.fields}
    (htexts : ∀ f ∈ s.fields, f.kind = .code ∨ f.kind = .label)
    (h : s.read depth text = .ok (row, rest)) :
    ∃ gap own v, Blank gap ∧ s.Writes depth v own ∧ text = gap ++ (own ++ rest) := by
  unfold read at h
  split at h
  · next more hskip =>
    obtain ⟨gap, hgap, rfl⟩ := exists_blank_of_cons hskip
    split at h
    · cases h
    · next hdeep =>
      obtain ⟨left, hread, hleave⟩ := enclosed_ok h
      obtain ⟨items, owns, inner, hitems, hlisted, hdepth, rfl⟩ :=
        readPositions_cut htexts (by omega) hread hleave
      have hspells : Spells (.list items) (91 :: (inner ++ [93])) := by
        rw [Spells]
        exact ⟨owns, inner, hitems, hlisted, rfl⟩
      refine ⟨gap, _, _, hgap, .value hspells ?_, by simp⟩
      rw [Value.depth]
      omega
  · next more hskip =>
    obtain ⟨gap, hgap, rfl⟩ := exists_blank_of_cons hskip
    split at h
    · cases h
    · next hdeep =>
      obtain ⟨left, hread, hleave⟩ := enclosed_ok h
      obtain ⟨⟨draft, left'⟩, hfields, hrow⟩ := exists_of_bind_ok hread
      obtain ⟨members, laid, inner, last, hmembers, hlaid, rfl, hend⟩ :=
        readFields_cut htexts (by omega) hfields
      cases hcomplete : draft.complete with
      | error c =>
        simp only [hcomplete] at hrow
        cases hrow
      | ok row' =>
        simp only [hcomplete] at hrow
        obtain ⟨-, rfl⟩ := Prod.mk.inj (Except.ok.inj hrow)
        subst hend
        obtain rfl := Except.ok.inj hleave
        exact ⟨gap, _, _, hgap, .object (by omega) hmembers hlaid, by simp⟩
  · exact absurd h (refuse_ne_ok _ _ _)

end Records

/-! ### Messages -/

theorem Result.texts : ∀ f ∈ Result.schema.fields, f.kind = .code ∨ f.kind = .label := by
  decide

/-- The induction is on the rounds of the reader. -/
private theorem readEntries_cut {withResult : Bool} {depth fuel : Nat} {first : Bool}
    {result : Option Result} {entries : Entries} {text rest : Bytes} (hd : 0 < depth)
    (h : readEntries withResult depth fuel first result text = .ok (entries, rest)) :
    ∃ members laid inner more, List.Forall₂ (Entries.Stands withResult depth) members laid ∧
      Laid first laid inner ∧ text = inner ++ rest ∧ rest = 125 :: more := by
  induction fuel generalizing text first result entries with
  | zero => cases h
  | succ fuel ih =>
    simp only [readEntries, bind] at h
    obtain ⟨next, hnext, hread⟩ := exists_of_bind_ok h
    clear h
    cases next with
    | finish left =>
      obtain ⟨-, rfl⟩ := Prod.mk.inj (Except.ok.inj hread)
      obtain ⟨gap, more, hgap, htext, hrest⟩ := exists_blank_of_close hnext
      exact ⟨[], [], gap, more, .nil, hgap, htext, hrest⟩
    | name left =>
      obtain ⟨⟨name, left'⟩, hname, hmore⟩ := exists_of_bind_ok hread
      clear hread
      simp only at hmore
      split at hmore
      · next hresult =>
        cases result with
        | some r => cases hmore
        | none =>
          obtain ⟨left'', hcolon, hblock⟩ := exists_of_bind_ok hmore
          obtain ⟨⟨row, after⟩, hblock, hmore⟩ := exists_of_bind_ok hblock
          obtain ⟨members, laid, inner, more, hmembers, hlaid, rfl, hrest⟩ := ih hmore
          obtain ⟨back, own, v, hback, hwrites, rfl⟩ := Schema.read_cut Result.texts hblock
          obtain ⟨inner', hlaid', htext⟩ := exists_laid hnext hname hcolon hback hlaid
          have hstands : Entries.Stands withResult depth (name, v) ⟨name, own⟩ :=
            ⟨rfl, by rw [if_pos hresult]; exact hwrites⟩
          exact ⟨_, _, inner', more, .cons hstands hmembers, hlaid', htext, hrest⟩
      · next hresult =>
        obtain ⟨left'', hcolon, hvalue⟩ := exists_of_bind_ok hmore
        obtain ⟨⟨v, after⟩, hvalue, hmore⟩ := exists_of_bind_ok hvalue
        obtain ⟨⟨entries', rest'⟩, hentries, hp⟩ := exists_of_bind_ok hmore
        obtain ⟨-, rfl⟩ := Prod.mk.inj (Except.ok.inj hp)
        obtain ⟨members, laid, inner, more, hmembers, hlaid, rfl, hrest⟩ := ih hentries
        obtain ⟨back, own, hback, hv, hdepth, rfl⟩ := spells_of_readValueWith _ hd hvalue
        obtain ⟨inner', hlaid', htext⟩ := exists_laid hnext hname hcolon hback hlaid
        have hstands : Entries.Stands withResult depth (name, v) ⟨name, own⟩ :=
          ⟨rfl, by rw [if_neg hresult]; exact ⟨hv, hdepth⟩⟩
        exact ⟨_, _, inner', more, .cons hstands hmembers, hlaid', htext, hrest⟩

/-- Every text that is read as a message is the text of one. -/
theorem messageText_of_document {α : Type} {title : String} {withResult : Bool}
    {pick : Entries → Except Cause α} {text : Bytes} {a : α}
    (h : document (readMessage title withResult pick) text = .ok a) :
    ∃ members, MessageText withResult members text := by
  unfold document at h
  split at h
  · cases h
  · next b rest hmessage =>
    split at h
    · cases h
    · next hfinish =>
      unfold readMessage at hmessage
      split at hmessage
      · next more hskip =>
        obtain ⟨front, hfront, rfl⟩ := exists_blank_of_cons hskip
        obtain ⟨left, hread, hleave⟩ := enclosed_ok hmessage
        obtain ⟨⟨entries, left'⟩, hentries, hpick⟩ := exists_of_bind_ok hread
        obtain ⟨members, laid, inner, last, hmembers, hlaid, rfl, hend⟩ :=
          readEntries_cut (by decide) hentries
        cases hpicked : pick entries with
        | error c =>
          simp only [hpicked] at hpick
          cases hpick
        | ok b' =>
          simp only [hpicked] at hpick
          obtain ⟨-, rfl⟩ := Prod.mk.inj (Except.ok.inj hpick)
          subst hend
          obtain rfl := Except.ok.inj hleave
          exact ⟨members, laid, front, inner, last, hfront, finish_ok_iff.mp hfinish,
            hmembers, hlaid, rfl⟩
      · exact absurd hmessage (refuse_ne_ok _ _ _)

theorem Request.messageText_of_decode {op : Operation} {text : Bytes} {r : Request op}
    (h : decode op text = .ok r) : ∃ members, MessageText false members text :=
  messageText_of_document h

theorem Answer.messageText_of_decode {op : Operation} {text : Bytes} {a : Answer op}
    (h : decode op text = .ok a) : ∃ members, MessageText true members text :=
  messageText_of_document h

end Roaming
