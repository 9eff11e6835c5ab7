import Roaming.Client.Request

/-!
# Keys tell their parts

No part of a key holds the delimiter, so a key is the key of one transaction only.
-/

set_option autoImplicit false
set_option relaxedAutoImplicit false

namespace Roaming

namespace Tag

theorem delimiter_not_mem_name (t : Tag) : ':' ∉ t.name.toList := by
  obtain ⟨operation, direction⟩ := t
  cases operation <;> cases direction <;> decide +kernel

theorem name_injective {t t' : Tag} (h : t.name = t'.name) : t = t' := by
  obtain ⟨operation, direction⟩ := t
  obtain ⟨operation', direction'⟩ := t'
  revert h
  cases operation <;> cases direction <;> cases operation' <;> cases direction' <;> decide +kernel

end Tag

namespace KeySpace

/-- The parts of the key of a transaction, in order. -/
def parts (s : KeySpace) (t : Tag) (id : TransactionId) : List String :=
  [s.space, s.component, "async", t.name, toString id.toNat]

theorem delimiter_not_mem_parts (s : KeySpace) (t : Tag) (id : TransactionId) :
    ∀ part ∈ s.parts t id, ':' ∉ part.toList := by
  intro part hpart hdelimiter
  simp only [parts, List.mem_cons, List.not_mem_nil, or_false] at hpart
  rcases hpart with rfl | rfl | rfl | rfl | rfl
  · exact s.space_ok.2 hdelimiter
  · exact s.component_ok.2 hdelimiter
  · simp at hdelimiter
  · exact t.delimiter_not_mem_name hdelimiter
  · rw [Nat.toString_eq_repr, Nat.toList_repr] at hdelimiter
    have hdigit := Nat.isDigit_of_mem_toDigits (by omega) (by omega) hdelimiter
    simp at hdigit

/-- A key is cut at its delimiters into its parts. -/
theorem splitOn_key (s : KeySpace) (t : Tag) (id : TransactionId) :
    (s.key t id).toList.splitOn ':' = (s.parts t id).map String.toList := by
  have hkey : (s.key t id).toList = [':'].intercalate ((s.parts t id).map String.toList) := by
    simp [key, parts, List.intercalate]
  rw [hkey]
  apply List.splitOn_intercalate
  · intro l hl
    obtain ⟨part, hpart, rfl⟩ := List.mem_map.mp hl
    exact s.delimiter_not_mem_parts t id part hpart
  · simp [parts]

/-- The parts of a key tell the transaction. -/
theorem parts_injective {s s' : KeySpace} {t t' : Tag} {id id' : TransactionId}
    (h : s.parts t id = s'.parts t' id') :
    s.space = s'.space ∧ s.component = s'.component ∧ t = t' ∧ id = id' := by
  simp only [parts, List.cons.injEq, and_true, true_and] at h
  obtain ⟨hspace, hcomponent, hname, hdigits⟩ := h
  have hid : id.toNat = id'.toNat := by
    have hvalue := congrArg (fun s => Nat.ofDigitChars 10 s.toList 0) hdigits
    simpa using hvalue
  exact ⟨hspace, hcomponent, Tag.name_injective hname, UInt32.toNat_inj.mp hid⟩

theorem splitOn_key_injective {s s' : KeySpace} {t t' : Tag} {id id' : TransactionId}
    (h : (s.key t id).toList.splitOn ':' = (s'.key t' id').toList.splitOn ':') :
    s.space = s'.space ∧ s.component = s'.component ∧ t = t' ∧ id = id' := by
  rw [splitOn_key, splitOn_key] at h
  exact parts_injective ((List.map_inj_right fun _ _ => String.toList_inj.mp).mp h)

/-- Equal keys are of the same key space, tag and transaction. -/
theorem key_injective {s s' : KeySpace} {t t' : Tag} {id id' : TransactionId}
    (h : s.key t id = s'.key t' id') :
    s.space = s'.space ∧ s.component = s'.component ∧ t = t' ∧ id = id' :=
  splitOn_key_injective (by rw [h])

/-! ### Which key spaces there are -/

theorem make_eq_ok_iff {space component : String} {s : KeySpace} :
    make space component = .ok s ↔ s.space = space ∧ s.component = component := by
  constructor
  · intro h
    unfold make at h
    split at h
    · split at h
      · cases h
        exact ⟨rfl, rfl⟩
      · cases h
    · cases h
  · rintro ⟨rfl, rfl⟩
    rw [make, dif_pos s.space_ok, dif_pos s.component_ok]

theorem exists_make_iff {space component : String} :
    (∃ s, make space component = .ok s) ↔ IsKeyPart space ∧ IsKeyPart component := by
  constructor
  · rintro ⟨s, hs⟩
    obtain ⟨rfl, rfl⟩ := make_eq_ok_iff.mp hs
    exact ⟨s.space_ok, s.component_ok⟩
  · rintro ⟨hspace, hcomponent⟩
    exact ⟨⟨space, component, hspace, hcomponent⟩, make_eq_ok_iff.mpr ⟨rfl, rfl⟩⟩

/-- A key space is made of any two texts that are not empty and hold no delimiter, and of no others.
The keys of all key spaces are cut at the delimiter into five parts, and both the key and its parts
tell the key space, the tag and the transaction. -/
theorem keys_tell_transactions_apart :
    (∀ space component : String, (∃ s, make space component = .ok s) ↔
      (space ≠ "" ∧ ':' ∉ space.toList) ∧ component ≠ "" ∧ ':' ∉ component.toList) ∧
    (∀ (space component : String) (s : KeySpace),
      make space component = .ok s ↔ s.space = space ∧ s.component = component) ∧
    ∀ (s s' : KeySpace) (t t' : Tag) (id id' : TransactionId),
      ((s.key t id).toList.splitOn ':').map String.ofList =
        [s.space, s.component, "async", t.name, toString id.toNat] ∧
      (s.key t id = s'.key t' id' ↔
        s.space = s'.space ∧ s.component = s'.component ∧ t = t' ∧ id = id') ∧
      ((s.key t id).toList.splitOn ':' = (s'.key t' id').toList.splitOn ':' ↔
        s.space = s'.space ∧ s.component = s'.component ∧ t = t' ∧ id = id') := by
  refine ⟨fun space component => exists_make_iff, fun space component s => make_eq_ok_iff, ?_⟩
  intro s s' t t' id id'
  have hsame : s.space = s'.space ∧ s.component = s'.component ∧ t = t' ∧ id = id' →
      s.key t id = s'.key t' id' := by
    rintro ⟨hspace, hcomponent, rfl, rfl⟩
    rw [key, key, hspace, hcomponent]
  refine ⟨?_, ⟨key_injective, hsame⟩, splitOn_key_injective, fun h => by rw [hsame h]⟩
  rw [splitOn_key, List.map_map]
  simp [parts]

end KeySpace

end Roaming
