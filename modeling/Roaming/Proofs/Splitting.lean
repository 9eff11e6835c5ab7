import Roaming.Proofs.Unread

/-!
# The members of an object

An object in whose members there are values, or anything else that is passed over, can be taken
apart in one way only (`IsObjectOf.unique`): what its members are does not depend on who reads it.
-/

set_option autoImplicit false
set_option relaxedAutoImplicit false

namespace Roaming.Json

open Roaming.Text

/-- Whether a text is that of an object with these members, the text of each of which is passed
over as one value. -/
def IsObjectOf (members : List Member) (text : Bytes) : Prop :=
  ∃ front inner back, Blank front ∧ Blank back ∧ Laid true members inner ∧
    (∀ m ∈ members, Passable m.text) ∧ text = front ++ 123 :: (inner ++ 125 :: back)

section Unique

variable {first : Bool} {m m' : Member} {members members' : List Member}
  {inner inner' more more' text : Bytes}

private theorem nextName_laid_nil (h : Laid first [] inner) (more : Bytes) :
    nextName first (inner ++ 125 :: more) = .ok (.finish (125 :: more)) :=
  nextName_end h more

/-- Where a member comes next, its name and the text of its value are found, and where it goes
on. -/
private theorem readers_laid_cons (h : Laid first (m :: members) inner) (hm : Passable m.text)
    (more : Bytes) : ∃ name value back tail, Laid false members tail ∧ Blank back ∧
      nextName first (inner ++ 125 :: more) = .ok (.name name) ∧
      readText name = .ok (m.name, value) ∧
      readColon value = .ok (back ++ (m.text ++ (tail ++ 125 :: more))) ∧
      skipValue (m.text ++ (tail ++ 125 :: more)) = .ok (tail ++ 125 :: more) := by
  obtain ⟨gap, label, colon, tail, hgap, hlabel, hcolon, htail, rfl⟩ := h
  obtain ⟨back, hback, hvalue⟩ := readColon_append hcolon (m.text ++ (tail ++ 125 :: more))
  refine ⟨label ++ (colon ++ (m.text ++ (tail ++ 125 :: more))),
    colon ++ (m.text ++ (tail ++ 125 :: more)), back, tail, htail, hback, ?_,
    takes_readText hlabel _, hvalue, ?_⟩
  · simp only [List.append_assoc, List.cons_append]
    exact nextName_before hgap _
  · exact hm.skipValue_append blank_nil (endsNumber_laid htail more)

/-- The induction is on the members: their readers leave both texts at the same place. -/
private theorem Laid.unique (h : Laid first members inner) (h' : Laid first members' inner')
    (hp : ∀ m ∈ members, Passable m.text) (hp' : ∀ m ∈ members', Passable m.text)
    (he : inner ++ 125 :: more = inner' ++ 125 :: more') : members = members' := by
  induction members generalizing first members' inner inner' with
  | nil =>
    cases members' with
    | nil => rfl
    | cons m' members' =>
      obtain ⟨name, value, back, tail, -, -, hname, -⟩ :=
        readers_laid_cons h' (hp' m' List.mem_cons_self) more'
      rw [← he, nextName_laid_nil h more] at hname
      cases hname
  | cons m members ih =>
    obtain ⟨name, value, back, tail, htail, hback, hnext, hname, hcolon, hskip⟩ :=
      readers_laid_cons h (hp m List.mem_cons_self) more
    cases members' with
    | nil =>
      rw [he, nextName_laid_nil h' more'] at hnext
      cases hnext
    | cons m' members' =>
      have hm' := hp' m' List.mem_cons_self
      obtain ⟨name', value', back', tail', htail', hback', hnext', hname', hcolon', hskip'⟩ :=
        readers_laid_cons h' hm' more'
      rw [he, hnext'] at hnext
      obtain rfl := NextName.name.inj (Except.ok.inj hnext)
      rw [hname'] at hname
      obtain ⟨hsame, rfl⟩ := Prod.mk.inj (Except.ok.inj hname)
      rw [hcolon'] at hcolon
      have hvalue : m.text ++ (tail ++ 125 :: more) = m'.text ++ (tail' ++ 125 :: more') := by
        have hskip := congrArg skipBlanks (Except.ok.inj hcolon)
        rw [skipBlanks_append hback, skipBlanks_append hback', hm'.skipBlanks_append,
          (hp m List.mem_cons_self).skipBlanks_append] at hskip
        exact hskip.symm
      have hrest : tail ++ 125 :: more = tail' ++ 125 :: more' := by
        rw [hvalue, hskip'] at hskip
        exact (Except.ok.inj hskip).symm
      have htext : m.text = m'.text := by
        rw [hrest] at hvalue
        exact List.append_cancel_right hvalue
      have hmembers := ih htail htail' (fun n hn => hp n (List.mem_cons_of_mem _ hn))
        (fun n hn => hp' n (List.mem_cons_of_mem _ hn)) hrest
      obtain ⟨own, ownText⟩ := m
      obtain ⟨own', ownText'⟩ := m'
      simp only at hsame htext
      rw [hsame, htext, hmembers]

/-- A text is that of an object with one list of members at most. -/
theorem IsObjectOf.unique (h : IsObjectOf members text) (h' : IsObjectOf members' text) :
    members = members' := by
  obtain ⟨front, inner, back, hfront, -, hl, hp, rfl⟩ := h
  obtain ⟨front', inner', back', hfront', -, hl', hp', he⟩ := h'
  have hskip := congrArg skipBlanks he
  rw [skipBlanks_append hfront, skipBlanks_append hfront', skipBlanks_cons (by decide),
    skipBlanks_cons (by decide)] at hskip
  exact hl.unique hl' hp hp' (List.cons.inj hskip).2

end Unique

end Roaming.Json
