import Mathlib.Data.List.Basic
import Mathlib.Data.List.Nodup
import Mathlib.Tactic.Common
import Roaming.Listeners

/-!
# The state of a registry

What each operation on listeners does to the two views through which the rest of the library
sees them: who is registered on a key, and what stands in the inbox of a listener. The
operations keep a registry in order (`Listeners.InOrder`): ids are used once, the listeners of a
key stand in the order in which they came, no key is listed without listeners, and whoever is
registered has an inbox.
-/

set_option autoImplicit false
set_option relaxedAutoImplicit false

namespace Roaming

open Roaming.Text (Bytes)

/-! ### Registries -/

namespace Registry

/-- Every key is listed once, and none without listeners. -/
structure InOrder (r : Registry) : Prop where
  keys_nodup : (r.map Prod.fst).Nodup
  ne_nil : ∀ entry ∈ r, entry.2 ≠ []

theorem on_eq_nil {r : Registry} {key : Key} (h : key ∉ r.map Prod.fst) : r.on key = [] := by
  induction r with
  | nil => rfl
  | cons entry rest ih =>
    simp only [List.map_cons, List.mem_cons, not_or] at h
    simp only [on, if_neg (Ne.symm h.1)]
    exact ih h.2

theorem on_enroll (r : Registry) (key k : Key) (id : ListenerId) :
    (r.enroll key id).on k = if k = key then r.on k ++ [id] else r.on k := by
  induction r with
  | nil =>
    by_cases h : k = key
    · simp [enroll, on, h]
    · simp [enroll, on, h, Ne.symm h]
  | cons entry rest ih =>
    by_cases he : entry.1 = key
    · by_cases hk : k = key
      · simp [enroll, on, he, hk]
      · simp [enroll, on, he, hk, Ne.symm hk]
    · by_cases hk : entry.1 = k
      · subst hk
        simp [enroll, on, he]
      · simp only [enroll, if_neg he, on, if_neg hk]
        exact ih

private theorem keys_enroll (r : Registry) (key : Key) (id : ListenerId) :
    (r.enroll key id).map Prod.fst =
      if key ∈ r.map Prod.fst then r.map Prod.fst else r.map Prod.fst ++ [key] := by
  induction r with
  | nil => simp [enroll]
  | cons entry rest ih =>
    by_cases he : entry.1 = key
    · simp [enroll, he]
    · simp only [enroll, if_neg he, List.map_cons, ih, List.mem_cons, Ne.symm he, false_or]
      split <;> simp

theorem InOrder.enroll {r : Registry} (h : r.InOrder) (key : Key) (id : ListenerId) :
    (r.enroll key id).InOrder := by
  constructor
  · rw [keys_enroll]
    split
    · exact h.keys_nodup
    · rename_i hk
      exact List.nodup_append.mpr ⟨h.keys_nodup, List.nodup_singleton key, fun a ha b hb => by
        rw [List.mem_singleton.mp hb]
        exact fun hab => hk (hab ▸ ha)⟩
  · have hne := h.ne_nil
    clear h
    induction r with
    | nil => simp [Registry.enroll]
    | cons entry rest ih =>
      intro e he
      by_cases hk : entry.1 = key
      · simp only [Registry.enroll, if_pos hk, List.mem_cons] at he
        rcases he with rfl | he
        · simp
        · exact hne e (List.mem_cons_of_mem _ he)
      · simp only [Registry.enroll, if_neg hk, List.mem_cons] at he
        rcases he with rfl | he
        · exact hne _ List.mem_cons_self
        · exact ih (fun e he => hne e (List.mem_cons_of_mem _ he)) e he

theorem on_strike {r : Registry} (h : r.InOrder) (key k : Key) (id : ListenerId) :
    (r.strike key id).on k = if k = key then (r.on k).filter (· ≠ id) else r.on k := by
  obtain ⟨hkeys, -⟩ := h
  induction r with
  | nil => simp [strike, on]
  | cons entry rest ih =>
    simp only [List.map_cons, List.nodup_cons] at hkeys
    by_cases he : entry.1 = key
    · -- The key stands here: what is left of it, or, with its last listener, nothing.
      have hrest : on rest key = [] := on_eq_nil (he ▸ hkeys.1)
      by_cases hk : k = key
      · subst hk
        cases hl : entry.2.filter (· ≠ id) with
        | nil => simp only [strike, if_pos he, on, if_pos, hl, hrest]
        | cons a as => simp only [strike, if_pos he, on, if_pos, hl]
      · have hek : entry.1 ≠ k := fun h => hk (h ▸ he)
        cases hl : entry.2.filter (· ≠ id) with
        | nil => simp only [strike, if_pos he, on, if_neg hek, hl, if_neg hk]
        | cons a as => simp only [strike, if_pos he, on, if_neg hek, hl, if_neg hk]
    · by_cases hk : entry.1 = k
      · have hne : k ≠ key := fun h => he (hk.trans h)
        simp only [strike, if_neg he, on, if_pos hk, if_neg hne]
      · simp only [strike, if_neg he, on, if_neg hk]
        exact ih hkeys.2

private theorem mem_strike {r : Registry} {key : Key} {id : ListenerId} {e : Key × List ListenerId}
    (h : e ∈ r.strike key id) : e.1 ∈ r.map Prod.fst ∧ (e ∈ r ∨ e.2 ≠ []) := by
  induction r with
  | nil => simp [strike] at h
  | cons entry rest ih =>
    simp only [strike] at h
    split at h
    · split at h
      · exact ⟨List.mem_cons_of_mem _ (List.mem_map_of_mem h), .inl (List.mem_cons_of_mem _ h)⟩
      · rename_i hl
        rcases List.mem_cons.mp h with rfl | h
        · exact ⟨List.mem_cons_self, .inr hl⟩
        · exact ⟨List.mem_cons_of_mem _ (List.mem_map_of_mem h), .inl (List.mem_cons_of_mem _ h)⟩
    · rcases List.mem_cons.mp h with rfl | h
      · exact ⟨List.mem_cons_self, .inl List.mem_cons_self⟩
      · obtain ⟨hkey, hor⟩ := ih h
        exact ⟨List.mem_cons_of_mem _ hkey, hor.imp_left (List.mem_cons_of_mem _)⟩

theorem InOrder.strike {r : Registry} (h : r.InOrder) (key : Key) (id : ListenerId) :
    (r.strike key id).InOrder := by
  constructor
  · obtain ⟨hkeys, -⟩ := h
    induction r with
    | nil => simp [Registry.strike]
    | cons entry rest ih =>
      simp only [List.map_cons, List.nodup_cons] at hkeys
      simp only [Registry.strike]
      split
      · split
        · exact hkeys.2
        · exact List.nodup_cons.mpr hkeys
      · refine List.nodup_cons.mpr ⟨fun hmem => ?_, ih hkeys.2⟩
        obtain ⟨e, he, heq⟩ := List.mem_map.mp hmem
        exact hkeys.1 (heq ▸ (mem_strike he).1)
  · intro e he
    rcases (mem_strike he).2 with hmem | hne
    · exact h.ne_nil e hmem
    · exact hne

theorem mem_ids {r : Registry} (h : r.InOrder) {id : ListenerId} :
    id ∈ r.ids ↔ ∃ key, id ∈ r.on key := by
  obtain ⟨hkeys, -⟩ := h
  induction r with
  | nil => simp [ids, on]
  | cons entry rest ih =>
    simp only [List.map_cons, List.nodup_cons] at hkeys
    have hids : id ∈ Registry.ids (entry :: rest) ↔ id ∈ entry.2 ∨ id ∈ ids rest := by
      simp [ids]
    rw [hids, ih hkeys.2]
    constructor
    · rintro (h | ⟨key, h⟩)
      · exact ⟨entry.1, by simpa [on] using h⟩
      · by_cases he : entry.1 = key
        · rw [on_eq_nil (he ▸ hkeys.1)] at h
          simp at h
        · exact ⟨key, by simpa [on, he] using h⟩
    · rintro ⟨key, h⟩
      by_cases he : entry.1 = key
      · exact .inl (by simpa [on, he] using h)
      · exact .inr ⟨key, by simpa [on, he] using h⟩

theorem on_eq_of_mem {r : Registry} (h : r.InOrder) {entry : Key × List ListenerId}
    (he : entry ∈ r) : r.on entry.1 = entry.2 := by
  obtain ⟨hkeys, -⟩ := h
  induction r with
  | nil => cases he
  | cons first rest ih =>
    simp only [List.map_cons, List.nodup_cons] at hkeys
    rcases List.mem_cons.mp he with rfl | he
    · simp only [on, if_true]
    · have hne : first.1 ≠ entry.1 := fun heq => hkeys.1 (heq ▸ List.mem_map_of_mem he)
      simp only [on, if_neg hne]
      exact ih he hkeys.2

end Registry

/-! ### Inboxes -/

namespace Listeners

/-- Whether a listener has an inbox: it was registered once, and was not released. -/
def Holds (l : Listeners) (id : ListenerId) : Prop := id ∈ l.inboxes.map Prod.fst

private theorem lookup_map (f : ListenerId → Inbox → Inbox) (inboxes : List (ListenerId × Inbox))
    (id : ListenerId) :
    (inboxes.map fun e => (e.1, f e.1 e.2)).lookup id = (inboxes.lookup id).map (f id) := by
  induction inboxes with
  | nil => rfl
  | cons e rest ih =>
    by_cases h : id = e.1
    · subst h
      rw [List.map_cons, List.lookup_cons_self, List.lookup_cons, beq_self_eq_true]
      rfl
    · rw [List.map_cons, List.lookup_cons, List.lookup_cons, beq_eq_false_iff_ne.mpr h]
      exact ih

private theorem lookup_filter_ne {inboxes : List (ListenerId × Inbox)} {id i : ListenerId}
    (h : i ≠ id) : (inboxes.filter (·.1 ≠ id)).lookup i = inboxes.lookup i := by
  induction inboxes with
  | nil => rfl
  | cons e rest ih =>
    by_cases he : e.1 = id
    · have hi : i ≠ e.1 := fun hi => h (hi.trans he)
      rw [List.filter_cons_of_neg (by simpa using he), ih, List.lookup_cons,
        beq_eq_false_iff_ne.mpr hi]
    · rw [List.filter_cons_of_pos (by simpa using he), List.lookup_cons, List.lookup_cons, ih]

private theorem lookup_eq_none {inboxes : List (ListenerId × Inbox)} {id : ListenerId}
    (h : id ∉ inboxes.map Prod.fst) : inboxes.lookup id = none := by
  induction inboxes with
  | nil => rfl
  | cons e rest ih =>
    simp only [List.map_cons, List.mem_cons, not_or] at h
    rw [List.lookup_cons, beq_eq_false_iff_ne.mpr h.1]
    exact ih h.2

private theorem lookup_isSome {inboxes : List (ListenerId × Inbox)} {id : ListenerId}
    (h : id ∈ inboxes.map Prod.fst) : ∃ inbox, inboxes.lookup id = some inbox := by
  induction inboxes with
  | nil => simp at h
  | cons e rest ih =>
    by_cases he : id = e.1
    · exact ⟨e.2, by rw [List.lookup_cons, beq_iff_eq.mpr he]⟩
    · obtain ⟨inbox, hinbox⟩ := ih ((List.mem_cons.mp h).resolve_left he)
      exact ⟨inbox, by rw [List.lookup_cons, beq_eq_false_iff_ne.mpr he]; exact hinbox⟩

theorem inbox_add {l : Listeners} {id : ListenerId} (h : l.Holds id) (key : Key) :
    (l.add key).inbox id = l.inbox id := by
  obtain ⟨inbox, hinbox⟩ := lookup_isSome h
  simp [Listeners.inbox, add, List.lookup_append, hinbox]

theorem inbox_add_next {l : Listeners} (h : ¬ l.Holds l.next) (key : Key) :
    (l.add key).inbox l.next = [] := by
  simp [inbox, add, List.lookup_append, lookup_eq_none h]

theorem inbox_release {l : Listeners} {id i : ListenerId} (h : i ≠ id) (key : Key) :
    (l.release key id).inbox i = l.inbox i := by
  rw [inbox, release, lookup_filter_ne h]
  rfl

@[simp] theorem inbox_disconnect (l : Listeners) (id : ListenerId) :
    l.disconnect.inbox id = l.inbox id := rfl

theorem inbox_offer {l : Listeners} {id : ListenerId} (h : l.Holds id) (key : Key)
    (payload : Bytes) :
    (l.offer key payload).inbox id =
      if id ∈ l.registry.on key then (l.inbox id).offer payload else l.inbox id := by
  have hmap : (l.offer key payload).inboxes = l.inboxes.map fun e =>
      (e.1, if e.1 ∈ l.registry.on key then e.2.offer payload else e.2) := by
    refine List.map_congr_left fun e _ => ?_
    split <;> rfl
  obtain ⟨inbox, hinbox⟩ := lookup_isSome h
  rw [Listeners.inbox, hmap,
    lookup_map (fun i b => if i ∈ l.registry.on key then b.offer payload else b), hinbox,
    Listeners.inbox, hinbox]
  rfl

theorem inbox_take {l : Listeners} (id i : ListenerId) :
    (l.take id).inbox i = if i = id then (l.inbox i).tail else l.inbox i := by
  have hmap : (l.take id).inboxes = l.inboxes.map fun e =>
      (e.1, if e.1 = id then e.2.tail else e.2) := by
    refine List.map_congr_left fun e _ => ?_
    split <;> rfl
  rw [inbox, hmap, lookup_map (fun j b => if j = id then b.tail else b), inbox]
  cases l.inboxes.lookup i <;> simp

/-! ### Who has an inbox -/

@[simp] theorem holds_add {l : Listeners} {key : Key} {id : ListenerId} :
    (l.add key).Holds id ↔ l.Holds id ∨ id = l.next := by
  simp [Holds, add]

@[simp] theorem holds_release {l : Listeners} {key : Key} {id i : ListenerId} :
    (l.release key id).Holds i ↔ l.Holds i ∧ i ≠ id := by
  simp only [Holds, release, List.mem_map, List.mem_filter, decide_eq_true_eq]
  constructor
  · rintro ⟨e, ⟨he, hne⟩, rfl⟩
    exact ⟨⟨e, he, rfl⟩, hne⟩
  · rintro ⟨⟨e, he, rfl⟩, hne⟩
    exact ⟨e, ⟨he, hne⟩, rfl⟩

@[simp] theorem holds_disconnect {l : Listeners} {id : ListenerId} :
    l.disconnect.Holds id ↔ l.Holds id := Iff.rfl

private theorem keys_offer (l : Listeners) (key : Key) (payload : Bytes) :
    (l.offer key payload).inboxes.map Prod.fst = l.inboxes.map Prod.fst := by
  rw [offer, List.map_map]
  refine List.map_congr_left fun e _ => ?_
  rw [Function.comp_apply]
  split <;> rfl

private theorem keys_take (l : Listeners) (id : ListenerId) :
    (l.take id).inboxes.map Prod.fst = l.inboxes.map Prod.fst := by
  rw [take, List.map_map]
  refine List.map_congr_left fun e _ => ?_
  rw [Function.comp_apply]
  split <;> rfl

@[simp] theorem holds_offer {l : Listeners} {key : Key} {payload : Bytes} {id : ListenerId} :
    (l.offer key payload).Holds id ↔ l.Holds id := by
  rw [Holds, keys_offer, Holds]

@[simp] theorem holds_take {l : Listeners} {id i : ListenerId} :
    (l.take id).Holds i ↔ l.Holds i := by
  rw [Holds, keys_take, Holds]

/-! ### Order -/

/-- What every operation on listeners keeps up. -/
structure InOrder (l : Listeners) : Prop where
  registry : l.registry.InOrder
  holds_nodup : (l.inboxes.map Prod.fst).Nodup
  lt_next : ∀ id, l.Holds id → id < l.next
  holds_of_on : ∀ key, ∀ id ∈ l.registry.on key, l.Holds id
  on_sorted : ∀ key, (l.registry.on key).Pairwise (· < ·)
  on_unique : ∀ key k id, id ∈ l.registry.on key → id ∈ l.registry.on k → key = k

theorem InOrder.empty : ({} : Listeners).InOrder where
  registry := ⟨List.nodup_nil, by simp⟩
  holds_nodup := List.nodup_nil
  lt_next := by simp [Holds]
  holds_of_on := by simp [Registry.on]
  on_sorted := by simp [Registry.on]
  on_unique := by simp [Registry.on]

theorem InOrder.ids_nodup {l : Listeners} (h : l.InOrder) : l.registry.ids.Nodup := by
  rw [Registry.ids, List.nodup_flatMap]
  constructor
  · intro entry he
    rw [← Registry.on_eq_of_mem h.registry he]
    exact (h.on_sorted entry.1).imp Nat.ne_of_lt
  · refine (List.pairwise_map.mp h.registry.keys_nodup).imp_of_mem
      fun {a b} ha hb hne id hid hid' => ?_
    have hon : id ∈ l.registry.on a.1 := (Registry.on_eq_of_mem h.registry ha).symm ▸ hid
    have hon' : id ∈ l.registry.on b.1 := (Registry.on_eq_of_mem h.registry hb).symm ▸ hid'
    exact hne (h.on_unique _ _ id hon hon')

theorem InOrder.not_holds_next {l : Listeners} (h : l.InOrder) : ¬ l.Holds l.next :=
  fun hn => Nat.lt_irrefl _ (h.lt_next _ hn)

theorem next_on_add (l : Listeners) (key : Key) : l.next ∈ (l.add key).registry.on key := by
  rw [add, Registry.on_enroll, if_pos rfl]
  exact List.mem_append_right _ (List.mem_singleton_self _)

theorem InOrder.add {l : Listeners} (h : l.InOrder) (key : Key) : (l.add key).InOrder where
  registry := h.registry.enroll key l.next
  holds_nodup := by
    simp only [Listeners.add, List.map_append, List.map_cons, List.map_nil]
    refine List.nodup_append.mpr ⟨h.holds_nodup, List.nodup_singleton _, fun a ha b hb => ?_⟩
    rw [List.mem_singleton.mp hb]
    exact fun hab => h.not_holds_next (hab ▸ ha)
  lt_next id hid := by
    rcases holds_add.mp hid with hid | rfl
    · exact Nat.lt_succ_of_lt (h.lt_next id hid)
    · exact Nat.lt_succ_self _
  holds_of_on k id hid := by
    rw [Listeners.add, Registry.on_enroll] at hid
    split at hid
    · rcases List.mem_append.mp hid with hid | hid
      · exact holds_add.mpr (.inl (h.holds_of_on k id hid))
      · exact holds_add.mpr (.inr (List.mem_singleton.mp hid))
    · exact holds_add.mpr (.inl (h.holds_of_on k id hid))
  on_sorted k := by
    rw [Listeners.add, Registry.on_enroll]
    split
    · refine List.pairwise_append.mpr ⟨h.on_sorted k, List.pairwise_singleton _ _,
        fun a ha b hb => ?_⟩
      rw [List.mem_singleton.mp hb]
      exact h.lt_next a (h.holds_of_on k a ha)
    · exact h.on_sorted k
  on_unique k k' id hid hid' := by
    -- The new listener is on no other key, since it had no inbox before.
    have hfresh : ∀ j, l.next ∉ l.registry.on j := fun j hj =>
      h.not_holds_next (h.holds_of_on j _ hj)
    rw [Listeners.add, Registry.on_enroll] at hid hid'
    split at hid <;> split at hid'
    · rename_i hk hk'
      exact hk.trans hk'.symm
    · rcases List.mem_append.mp hid with hid | hid
      · exact h.on_unique k k' id hid hid'
      · exact absurd (List.mem_singleton.mp hid ▸ hid') (hfresh k')
    · rcases List.mem_append.mp hid' with hid' | hid'
      · exact h.on_unique k k' id hid hid'
      · exact absurd (List.mem_singleton.mp hid' ▸ hid) (hfresh k)
    · exact h.on_unique k k' id hid hid'

theorem on_release {l : Listeners} (h : l.InOrder) (key k : Key) (id : ListenerId) :
    (l.release key id).registry.on k =
      if k = key then (l.registry.on k).filter (· ≠ id) else l.registry.on k :=
  Registry.on_strike h.registry key k id

private theorem mem_on_release {l : Listeners} (h : l.InOrder) {key k : Key} {id i : ListenerId}
    (hi : i ∈ (l.release key id).registry.on k) : i ∈ l.registry.on k ∧ (k = key → i ≠ id) := by
  rw [on_release h] at hi
  split at hi
  · obtain ⟨hi, hne⟩ := List.mem_filter.mp hi
    exact ⟨hi, fun _ => of_decide_eq_true hne⟩
  · rename_i hk
    exact ⟨hi, fun h => absurd h hk⟩

/-- Releasing needs the key of the listener: on another key it would only lose its inbox. -/
theorem InOrder.release {l : Listeners} (h : l.InOrder) {key : Key} {id : ListenerId}
    (hkey : ∀ k, id ∈ l.registry.on k → k = key) : (l.release key id).InOrder where
  registry := h.registry.strike key id
  holds_nodup := h.holds_nodup.sublist (List.filter_sublist.map _)
  lt_next i hi := h.lt_next i (holds_release.mp hi).1
  holds_of_on k i hi := by
    obtain ⟨hmem, hne⟩ := mem_on_release h hi
    refine holds_release.mpr ⟨h.holds_of_on k i hmem, fun hid => ?_⟩
    subst hid
    exact hne (hkey k hmem) rfl
  on_sorted k := by
    rw [on_release h]
    split
    · exact (h.on_sorted k).filter _
    · exact h.on_sorted k
  on_unique k k' i hi hi' := h.on_unique k k' i (mem_on_release h hi).1 (mem_on_release h hi').1

theorem InOrder.disconnect {l : Listeners} (h : l.InOrder) : l.disconnect.InOrder where
  registry := ⟨List.nodup_nil, by simp [Listeners.disconnect]⟩
  holds_nodup := h.holds_nodup
  lt_next := h.lt_next
  holds_of_on := by simp [Listeners.disconnect, Registry.on]
  on_sorted := by simp [Listeners.disconnect, Registry.on]
  on_unique := by simp [Listeners.disconnect, Registry.on]

theorem InOrder.offer {l : Listeners} (h : l.InOrder) (key : Key) (payload : Bytes) :
    (l.offer key payload).InOrder where
  registry := h.registry
  holds_nodup := by rw [keys_offer]; exact h.holds_nodup
  lt_next i hi := h.lt_next i (holds_offer.mp hi)
  holds_of_on k i hi := holds_offer.mpr (h.holds_of_on k i hi)
  on_sorted := h.on_sorted
  on_unique := h.on_unique

theorem InOrder.take {l : Listeners} (h : l.InOrder) (id : ListenerId) : (l.take id).InOrder where
  registry := h.registry
  holds_nodup := by rw [keys_take]; exact h.holds_nodup
  lt_next i hi := h.lt_next i (holds_take.mp hi)
  holds_of_on k i hi := holds_take.mpr (h.holds_of_on k i hi)
  on_sorted := h.on_sorted
  on_unique := h.on_unique

/-! ### What an inbox shows -/

theorem isOpen_iff {l : Listeners} (h : l.InOrder) {id : ListenerId} :
    l.isOpen id = true ↔ ∃ key, id ∈ l.registry.on key := by
  rw [isOpen, List.contains_iff_mem, Registry.mem_ids h.registry]

theorem sight_eq_message {l : Listeners} {id : ListenerId} {payload : Bytes} :
    l.sight id = .message payload ↔ ∃ rest, l.inbox id = payload :: rest := by
  rw [sight]
  cases l.inbox id with
  | nil => simp only [Inbox.sight]; split <;> simp
  | cons p rest => simp [Inbox.sight]

theorem sight_disconnect {l : Listeners} {id : ListenerId} (h : id ∉ l.registry.ids) :
    l.disconnect.sight id = l.sight id := by
  have hopen : l.isOpen id = false := by simpa [isOpen] using h
  have hopen' : l.disconnect.isOpen id = false := rfl
  rw [sight, sight, hopen, hopen', inbox_disconnect]

theorem sight_add {l : Listeners} (h : l.InOrder) {id : ListenerId} (hid : l.Holds id) (key : Key) :
    (l.add key).sight id = l.sight id := by
  have hne : id ≠ l.next := Nat.ne_of_lt (h.lt_next id hid)
  have hopen : (l.add key).isOpen id = l.isOpen id := by
    rw [Bool.eq_iff_iff, isOpen_iff (h.add key), isOpen_iff h]
    refine exists_congr fun k => ?_
    rw [Listeners.add, Registry.on_enroll]
    split
    · simp [hne]
    · exact Iff.rfl
  rw [sight, sight, hopen, inbox_add hid]

theorem sight_release {l : Listeners} (h : l.InOrder) {key : Key} {id i : ListenerId} (hi : i ≠ id)
    (hkey : ∀ k, id ∈ l.registry.on k → k = key) : (l.release key id).sight i = l.sight i := by
  have hopen : (l.release key id).isOpen i = l.isOpen i := by
    rw [Bool.eq_iff_iff, isOpen_iff (h.release hkey), isOpen_iff h]
    refine exists_congr fun k => ?_
    rw [on_release h]
    split
    · simp [hi]
    · exact Iff.rfl
  rw [sight, sight, hopen, inbox_release hi]

theorem sight_take {l : Listeners} {id i : ListenerId} (hi : i ≠ id) :
    (l.take id).sight i = l.sight i := by
  rw [sight, sight, inbox_take, if_neg hi]
  rfl

end Listeners

end Roaming
