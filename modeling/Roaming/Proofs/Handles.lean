import Mathlib.Data.List.Range
import Mathlib.Data.List.Sort
import Mathlib.Tactic.Common
import Roaming.Proofs.Listeners
import Roaming.Medium.Hub

/-!
# Handles of a hub

Whoever subscribes at a hub holds a handle, and dropping the handle releases the listener, also when
the hub was closed in the meantime. What the registry of a hub lists can be told from what was done
with it alone: a handle stands (`Forum.standing?`) if it was not dropped and the hub was not closed
since it was made. The registry lists the handles that stand, each once, in the order in which they
were made.
-/

set_option autoImplicit false
set_option relaxedAutoImplicit false

namespace Roaming

open Roaming.Text (Bytes)

/-- What a handle releases when it is dropped. -/
structure Handle where
  key : Key
  id : ListenerId
deriving DecidableEq, Repr

/-- A hub with the handles that were made of it, by their numbers, of which dropped ones are gone,
and what was read through each, in order. -/
structure Forum where
  hub : Hub := {}
  handles : List (Option Handle) := []
  readings : List (Nat × Bytes) := []
deriving DecidableEq, Repr

namespace Forum

/-- What can be done with a hub, through whichever of its clients. -/
inductive Act where
  | subscribe (key : Key)
  | drop (n : Nat)
  | publish (key : Key) (payload : Bytes)
  | close
  /-- The holder of a handle looks into its inbox, and takes a payload out if it sees one. -/
  | receive (n : Nat)
deriving DecidableEq, Repr

/-- The handle with a number, unless it was dropped. -/
def handle? (n : Nat) (f : Forum) : Option Handle := f.handles[n]?.join

/-- What the holder of a handle sees. -/
def sight? (n : Nat) (f : Forum) : Option Sight := (f.handle? n).map fun h => f.hub.sight h.id

/-- Does something with a hub; what is not possible does nothing. -/
def act (a : Act) (f : Forum) : Forum :=
  match a with
  | .subscribe key =>
    { f with hub := (f.hub.subscribe key).1, handles := f.handles ++ [some ⟨key, f.hub.next⟩] }
  | .drop n =>
    match f.handle? n with
    | some h => { f with hub := (f.hub.unsubscribe h.key h.id).1, handles := f.handles.set n none }
    | none => f
  | .publish key payload => { f with hub := (f.hub.publish key payload).1 }
  | .close => { f with hub := (Hub.close f.hub).1 }
  | .receive n =>
    match f.handle? n, f.sight? n with
    | some h, some (.message payload) =>
      { f with hub := f.hub.take h.id, readings := f.readings ++ [(n, payload)] }
    | _, _ => f

/-- A hub after acts. -/
def after (acts : List Act) (f : Forum) : Forum := acts.foldl (fun f a => f.act a) f

@[simp] theorem after_nil (f : Forum) : f.after [] = f := rfl

@[simp] theorem after_cons (a : Act) (acts : List Act) (f : Forum) :
    f.after (a :: acts) = (f.act a).after acts := rfl

theorem after_append (acts acts' : List Act) (f : Forum) :
    f.after (acts ++ acts') = (f.after acts).after acts' :=
  List.foldl_append

theorem after_concat (acts : List Act) (a : Act) (f : Forum) :
    f.after (acts ++ [a]) = (f.after acts).act a :=
  after_append acts [a] f

/-! ### What becomes of a handle -/

/-- The number of handles that acts make. -/
def made : List Act → Nat
  | [] => 0
  | .subscribe _ :: acts => made acts + 1
  | _ :: acts => made acts

/-- The key of the handle with a number, and what is done after it is made. -/
def since? : Nat → List Act → Option (Key × List Act)
  | _, [] => none
  | 0, .subscribe key :: acts => some (key, acts)
  | n + 1, .subscribe _ :: acts => since? n acts
  | n, _ :: acts => since? n acts

/-- The key of the handle with a number, if it was not dropped and the hub was not closed
since it was made. -/
def standing? (n : Nat) (acts : List Act) : Option Key :=
  (since? n acts).bind fun (key, later) =>
    if .drop n ∈ later ∨ .close ∈ later then none else some key

/-- The numbers of the handles on a key that stand, in the order in which they were made. -/
def standing (key : Key) (acts : List Act) : List Nat :=
  (List.range (made acts)).filter fun n => standing? n acts = some key

/-- The numbers of all handles that stand. -/
def allStanding (acts : List Act) : List Nat :=
  (List.range (made acts)).filter fun n => (standing? n acts).isSome

theorem made_append (acts acts' : List Act) : made (acts ++ acts') = made acts + made acts' := by
  induction acts with
  | nil => exact (Nat.zero_add _).symm
  | cons a acts ih =>
    cases a with
    | subscribe key =>
      simp only [List.cons_append, made]
      omega
    | _ => exact ih

theorem since?_eq_none {n : Nat} {acts : List Act} : since? n acts = none ↔ made acts ≤ n := by
  induction acts generalizing n with
  | nil => simp [since?, made]
  | cons a acts ih =>
    cases a with
    | subscribe key =>
      cases n with
      | zero => simp [since?, made]
      | succ n =>
        rw [since?, ih, made]
        omega
    | _ => simpa [since?, made] using ih

/-- Only the last act is new to a handle that was made before, and only a subscription makes one. -/
theorem since?_concat (n : Nat) (acts : List Act) (a : Act) :
    since? n (acts ++ [a]) =
      match since? n acts, a with
      | some (key, later), _ => some (key, later ++ [a])
      | none, .subscribe key => if n = made acts then some (key, []) else none
      | none, _ => none := by
  induction acts generalizing n with
  | nil =>
    cases a with
    | subscribe key => cases n <;> simp [since?, made]
    | _ => rfl
  | cons b acts ih =>
    cases b with
    | subscribe key =>
      cases n with
      | zero => rfl
      | succ n =>
        have hmade : (n + 1 = made acts + 1) ↔ n = made acts := by omega
        simp only [List.cons_append, since?, made, ih n, hmade]
    | _ =>
      simp only [List.cons_append, since?, made]
      exact ih n

/-- A handle stands from when it is made until it is dropped or the hub is closed. -/
theorem standing?_concat (n : Nat) (acts : List Act) (a : Act) :
    standing? n (acts ++ [a]) =
      match a with
      | .subscribe key => if n = made acts then some key else standing? n acts
      | .drop m => if m = n then none else standing? n acts
      | .close => none
      | _ => standing? n acts := by
  unfold standing?
  rw [since?_concat]
  cases hsince : since? n acts with
  | none =>
    cases a with
    | subscribe key =>
      by_cases hn : n = made acts
      · simp [hn]
      · simp [hn]
    | _ => simp
  | some p =>
    obtain ⟨key, later⟩ := p
    cases a with
    | subscribe k =>
      have hlt : n ≠ made acts := by
        intro hn
        rw [since?_eq_none.mpr (Nat.le_of_eq hn.symm)] at hsince
        cases hsince
      simp [hlt]
    | drop m =>
      by_cases hm : m = n
      · simp [hm]
      · simp [hm, Ne.symm hm]
    | _ => simp

theorem lt_made_of_standing {n : Nat} {acts : List Act} {key : Key}
    (h : standing? n acts = some key) : n < made acts := by
  by_contra hle
  rw [standing?, since?_eq_none.mpr (Nat.not_lt.mp hle)] at h
  cases h

/-! ### The registry and the handles -/

/-- Whether a hub is as acts have left it: every handle is there unless it was dropped, and whoever
is registered holds a handle that stands. -/
structure Agrees (f : Forum) (acts : List Act) : Prop where
  inOrder : f.hub.InOrder
  next : f.hub.next = made acts
  handles : ∀ n, f.handles[n]? =
    (since? n acts).map fun p => if .drop n ∈ p.2 then none else some ⟨p.1, n⟩
  on : ∀ key n, n ∈ f.hub.registry.on key ↔ standing? n acts = some key
  holds : ∀ n h, f.handle? n = some h → f.hub.Holds n

variable {f : Forum} {acts : List Act} {n : Nat} {h : Handle}

theorem Agrees.length (hf : f.Agrees acts) : f.handles.length = made acts := by
  have hnone : ∀ n, f.handles.length ≤ n ↔ made acts ≤ n := by
    intro n
    rw [← List.getElem?_eq_none_iff, hf.handles, Option.map_eq_none_iff, since?_eq_none]
  apply Nat.le_antisymm
  · exact (hnone _).mpr (Nat.le_refl _)
  · exact (hnone _).mp (Nat.le_refl _)

/-- A handle that is there carries its own number, and was not dropped. -/
theorem Agrees.of_handle (hf : f.Agrees acts) (hn : f.handle? n = some h) :
    h.id = n ∧ ∃ later, since? n acts = some (h.key, later) ∧ .drop n ∉ later := by
  rw [handle?, hf.handles] at hn
  cases hsince : since? n acts with
  | none =>
    rw [hsince] at hn
    cases hn
  | some p =>
    obtain ⟨key, later⟩ := p
    rw [hsince] at hn
    by_cases hdrop : Act.drop n ∈ later
    · simp [hdrop] at hn
    · simp only [Option.map_some, if_neg hdrop, Option.join_some, Option.some.injEq] at hn
      subst hn
      exact ⟨rfl, later, rfl, hdrop⟩

theorem Agrees.handle_of_since (hf : f.Agrees acts) {key : Key} {later : List Act}
    (hsince : since? n acts = some (key, later)) (hdrop : .drop n ∉ later) :
    f.handle? n = some ⟨key, n⟩ := by
  rw [handle?, hf.handles, hsince]
  simp [hdrop]

/-- It stands if and only if the hub was not closed since. -/
theorem standing?_of_since {key : Key} {later : List Act}
    (hsince : since? n acts = some (key, later)) (hdrop : .drop n ∉ later) :
    standing? n acts = if .close ∈ later then none else some key := by
  simp [standing?, hsince, hdrop]

theorem Agrees.subscribes (hf : f.Agrees acts) (key : Key) :
    (f.act (.subscribe key)).Agrees (acts ++ [.subscribe key]) := by
  have hhub : (f.act (.subscribe key)).hub = f.hub.add key := rfl
  have hhandles : (f.act (.subscribe key)).handles = f.handles ++ [some ⟨key, f.hub.next⟩] := rfl
  have hentry :
      ∀ n, (f.act (.subscribe key)).handles[n]? = (since? n (acts ++ [.subscribe key])).map
      fun p => if .drop n ∈ p.2 then none else some ⟨p.1, n⟩ := by
    intro n
    rw [hhandles, since?_concat]
    by_cases hlt : n < f.handles.length
    · rw [List.getElem?_append_left hlt, hf.handles]
      cases since? n acts with
      | none =>
        have hne : n ≠ made acts := by
          have := hf.length
          omega
        simp [hne]
      | some p => simp
    · have hnone : since? n acts = none := by
        rw [since?_eq_none, ← hf.length]
        exact Nat.not_lt.mp hlt
      rw [hnone, List.getElem?_append_right (Nat.not_lt.mp hlt), hf.length, hf.next]
      by_cases hn : n = made acts
      · simp [hn]
      · have hpos : n - made acts ≠ 0 := by
          have := hf.length
          omega
        obtain ⟨k, hk⟩ := Nat.exists_eq_succ_of_ne_zero hpos
        simp [hn, hk]
  refine ⟨hf.inOrder.add key, ?_, hentry, fun k n => ?_, fun n h hn => ?_⟩
  · rw [hhub, made_append]
    exact congrArg Nat.succ hf.next
  · have hon : (f.act (.subscribe key)).hub.registry.on k = _ := Registry.on_enroll _ _ _ _
    rw [hon, standing?_concat, hf.next]
    have hnew : standing? (made acts) acts ≠ some k :=
      fun hs => Nat.lt_irrefl _ (lt_made_of_standing hs)
    by_cases hk : k = key
    · subst hk
      simp only [if_true, List.mem_append, List.mem_singleton, hf.on]
      split
      · simp [*]
      · simp [*]
    · simp only [if_neg hk, hf.on]
      split
      · rename_i hn
        subst hn
        simp [hnew, Ne.symm hk]
      · rfl
  · rw [hhub, Listeners.holds_add]
    rw [handle?, hhandles] at hn
    by_cases hlt : n < f.handles.length
    · rw [List.getElem?_append_left hlt] at hn
      exact .inl (hf.holds n h hn)
    · right
      rw [List.getElem?_append_right (Nat.not_lt.mp hlt)] at hn
      have hzero : n - f.handles.length = 0 := by
        by_contra hpos
        obtain ⟨k, hk⟩ := Nat.exists_eq_succ_of_ne_zero hpos
        simp [hk] at hn
      have hmade : n = made acts := by
        have := hf.length
        omega
      exact hmade.trans hf.next.symm

theorem Agrees.drops (hf : f.Agrees acts) (hn : f.handle? n = some h) :
    (f.act (.drop n)).Agrees (acts ++ [.drop n]) := by
  obtain ⟨hid, later, hsince, hdrop⟩ := hf.of_handle hn
  have hact : f.act (.drop n) = { f with
      hub := f.hub.release h.key n, handles := f.handles.set n none } := by
    simp only [act, hn, hid]
    rfl
  -- The handle is registered on its own key at most.
  have hkey : ∀ k, n ∈ f.hub.registry.on k → k = h.key := by
    intro k hk
    rw [hf.on, standing?_of_since hsince hdrop] at hk
    split at hk
    · cases hk
    · exact (Option.some.inj hk).symm
  rw [hact]
  refine ⟨hf.inOrder.release hkey, ?_, fun m => ?_, fun k m => ?_, fun m h' hm => ?_⟩
  · rw [made_append]
    exact hf.next
  · rw [since?_concat]
    change (f.handles.set n none)[m]? = _
    by_cases hmn : n = m
    · subst hmn
      have hlt : n < f.handles.length := by
        rw [hf.length]
        by_contra hle
        rw [since?_eq_none.mpr (Nat.not_lt.mp hle)] at hsince
        cases hsince
      rw [List.getElem?_set_self hlt, hsince]
      simp
    · rw [List.getElem?_set_ne hmn, hf.handles]
      cases since? m acts with
      | none => rfl
      | some p => simp [Ne.symm hmn]
  · change m ∈ (f.hub.release h.key n).registry.on k ↔ _
    rw [Listeners.on_release hf.inOrder, standing?_concat]
    dsimp only
    by_cases hmn : n = m
    · subst hmn
      split
      · simp
      · rename_i hk
        simpa using fun hmem => hk (hkey k hmem)
    · rw [if_neg hmn]
      split
      · simp [hf.on, Ne.symm hmn]
      · exact hf.on k m
  · change (f.hub.release h.key n).Holds m
    have hm' : ((f.handles.set n none)[m]?).join = some h' := hm
    by_cases hmn : n = m
    · subst hmn
      rw [List.getElem?_set] at hm'
      split at hm'
      · split at hm' <;> cases hm'
      · contradiction
    · rw [List.getElem?_set_ne hmn] at hm'
      exact Listeners.holds_release.mpr ⟨hf.holds m h' hm', Ne.symm hmn⟩

/-- Dropping a handle that is not there changes nothing. -/
private theorem Agrees.drops_absent (hf : f.Agrees acts) (hn : f.handle? n = none) :
    f.Agrees (acts ++ [.drop n]) := by
  have hgone : ∀ key later, since? n acts = some (key, later) → .drop n ∈ later := by
    intro key later hsince
    by_contra hdrop
    rw [hf.handle_of_since hsince hdrop] at hn
    cases hn
  refine ⟨hf.inOrder, ?_, fun m => ?_, fun k m => ?_, hf.holds⟩
  · rw [made_append]
    exact hf.next
  · rw [hf.handles, since?_concat]
    cases hsince : since? m acts with
    | none => rfl
    | some p =>
      obtain ⟨key, later⟩ := p
      by_cases hmn : n = m
      · subst hmn
        simp [hgone key later hsince]
      · simp [Ne.symm hmn]
  · rw [hf.on, standing?_concat]
    dsimp only
    split
    · rename_i hmn
      subst hmn
      cases hsince : since? n acts with
      | none => simp [standing?, hsince]
      | some p => simp [standing?, hsince, hgone p.1 p.2 hsince]
    · rfl

/-- What neither makes nor drops a handle leaves all of them there. -/
private theorem handles_concat {a : Act} (hsubscribe : ∀ key, a ≠ .subscribe key)
    (hdrop : ∀ n, a ≠ .drop n) (n : Nat) (acts : List Act) :
    ((since? n (acts ++ [a])).map fun p => if .drop n ∈ p.2 then none else some (Handle.mk p.1 n)) =
      (since? n acts).map fun p => if .drop n ∈ p.2 then none else some (Handle.mk p.1 n) := by
  rw [since?_concat]
  cases since? n acts with
  | none =>
    cases a with
    | subscribe key => exact absurd rfl (hsubscribe key)
    | _ => rfl
  | some p => simp [Ne.symm (hdrop n)]

/-- Offering payloads and taking them out leaves the registry as it is. -/
private theorem Agrees.passes (hf : f.Agrees acts) {a : Act} (hmade : made [a] = 0)
    (hstanding : ∀ n, standing? n (acts ++ [a]) = standing? n acts)
    (hdrop : ∀ n, a ≠ .drop n) {hub : Hub} (horder : hub.InOrder)
    (hregistry : hub.registry = f.hub.registry) (hnext : hub.next = f.hub.next)
    (hholds : ∀ id, f.hub.Holds id → hub.Holds id) (readings : List (Nat × Bytes)) :
    Agrees { f with hub, readings } (acts ++ [a]) := by
  have hsubscribe : ∀ key, a ≠ .subscribe key := by
    rintro key rfl
    cases hmade
  refine ⟨horder, ?_, fun n => ?_, fun k n => ?_, fun n h hn => hholds n (hf.holds n h hn)⟩
  · rw [made_append, hmade]
    exact hnext.trans hf.next
  · rw [handles_concat hsubscribe hdrop]
    exact hf.handles n
  · change n ∈ hub.registry.on k ↔ _
    rw [hregistry, hstanding]
    exact hf.on k n

theorem Agrees.act (hf : f.Agrees acts) (a : Act) : (f.act a).Agrees (acts ++ [a]) := by
  cases a with
  | subscribe key => exact hf.subscribes key
  | drop n =>
    cases hn : f.handle? n with
    | some h => exact hf.drops hn
    | none =>
      simp only [Forum.act, hn]
      exact hf.drops_absent hn
  | publish key payload =>
    exact hf.passes rfl (fun n => standing?_concat n acts _) (by simp)
      (hf.inOrder.offer key payload) rfl rfl (fun _ => Listeners.holds_offer.mpr) f.readings
  | close =>
    refine ⟨hf.inOrder.disconnect, ?_, fun n => ?_, fun k n => ?_, hf.holds⟩
    · rw [made_append]
      exact hf.next
    · rw [handles_concat (by simp) (by simp)]
      exact hf.handles n
    · rw [standing?_concat]
      exact iff_of_false List.not_mem_nil nofun
  | receive n =>
    have hsame : ∀ m, standing? m (acts ++ [.receive n]) = standing? m acts :=
      fun m => standing?_concat m acts _
    simp only [Forum.act]
    split
    · exact hf.passes rfl hsame (by simp) (hf.inOrder.take _) rfl rfl
        (fun _ => Listeners.holds_take.mpr) _
    · exact hf.passes rfl hsame (by simp) hf.inOrder rfl rfl (fun _ => id) f.readings

/-- A new hub, of which nobody holds a handle. -/
def opening : Forum := {}

theorem opening_agrees : opening.Agrees [] where
  inOrder := Listeners.InOrder.empty
  next := rfl
  handles _ := rfl
  on key n := iff_of_false List.not_mem_nil nofun
  holds n h hn := by cases hn

theorem agrees_after (acts : List Act) : (opening.after acts).Agrees acts := by
  induction acts using List.reverseRecOn with
  | nil => exact opening_agrees
  | append_singleton acts a ih =>
    rw [after_concat]
    exact ih.act a

/-! ### What the registry lists -/

theorem Agrees.on_eq (hf : f.Agrees acts) (key : Key) :
    f.hub.registry.on key = standing key acts := by
  have hsorted : (standing key acts).Pairwise (· < ·) := List.pairwise_lt_range.filter _
  refine (hf.inOrder.on_sorted key).eq_of_mem_iff hsorted fun n => ?_
  rw [hf.on, standing, List.mem_filter, List.mem_range]
  constructor
  · intro hs
    exact ⟨lt_made_of_standing hs, by simpa using hs⟩
  · rintro ⟨-, hs⟩
    simpa using hs

theorem Agrees.total (hf : f.Agrees acts) : f.hub.total = (allStanding acts).length := by
  have hnodup : (allStanding acts).Nodup := List.nodup_range.filter _
  have hmem : ∀ n, n ∈ f.hub.registry.ids ↔ n ∈ allStanding acts := by
    intro n
    rw [Registry.mem_ids hf.inOrder.registry, allStanding, List.mem_filter, List.mem_range]
    constructor
    · rintro ⟨key, hon⟩
      have hs := (hf.on key n).mp hon
      exact ⟨lt_made_of_standing hs, by simp [hs]⟩
    · rintro ⟨-, hs⟩
      obtain ⟨key, hs⟩ := Option.isSome_iff_exists.mp hs
      exact ⟨key, (hf.on key n).mpr hs⟩
  have hperm := (List.perm_ext_iff_of_nodup hf.inOrder.ids_nodup hnodup).mpr hmem
  exact hperm.length_eq

end Forum

/-- A listener that is not registered on a key is not struck out there, and neither is another. -/
theorem Registry.strike_of_not_on {r : Registry} (h : r.InOrder) {key : Key} {id : ListenerId}
    (hid : id ∉ r.on key) : r.strike key id = r := by
  have hne := h.ne_nil
  clear h
  induction r with
  | nil => rfl
  | cons entry rest ih =>
    obtain ⟨k, ids⟩ := entry
    by_cases hk : k = key
    · have hkept : ids.filter (· ≠ id) = ids := by
        rw [Registry.on, if_pos hk] at hid
        refine List.filter_eq_self.mpr fun i hi => ?_
        have hne : i ≠ id := ne_of_mem_of_not_mem hi hid
        simpa using hne
      cases ids with
      | nil => exact absurd rfl (hne _ List.mem_cons_self)
      | cons i is => simp only [Registry.strike, if_pos hk, hkept]
    · rw [Registry.on, if_neg hk] at hid
      rw [Registry.strike, if_neg hk, ih hid fun e he => hne e (List.mem_cons_of_mem _ he)]

namespace Forum

/-- What the registry of a hub is after acts, and what dropping a handle does to it. -/
structure Lists (f : Forum) (acts : List Act) : Prop where
  /-- Each key has the handles that stand on it, in the order in which they were made. -/
  on : ∀ key, f.hub.registry.on key = standing key acts
  ids_nodup : f.hub.registry.ids.Nodup
  keys_nodup : (f.hub.registry.map Prod.fst).Nodup
  ne_nil : ∀ entry ∈ f.hub.registry, entry.2 ≠ []
  count : ∀ key, f.hub.count key = (standing key acts).length
  total : f.hub.total = (allStanding acts).length
  /-- A handle that is dropped takes its own entry with it. -/
  dropped : ∀ n h later, f.handle? n = some h → since? n acts = some (h.key, later) →
    .close ∉ later → n ∈ f.hub.registry.on h.key ∧
      ∀ key, (f.act (.drop n)).hub.registry.on key = (f.hub.registry.on key).filter (· ≠ n)
  /-- If the hub was closed since, it takes none. -/
  droppedLate : ∀ n h later, f.handle? n = some h → since? n acts = some (h.key, later) →
    .close ∈ later → (f.act (.drop n)).hub.registry = f.hub.registry
  /-- Who still holds a handle is told from the acts alone, too. -/
  handles : ∀ n, f.handle? n =
    (since? n acts).bind fun (key, later) => if .drop n ∈ later then none else some ⟨key, n⟩

/-- After whatever was done with a hub, its registry lists the handles that stand and nothing
else. -/
theorem registry_lists_standing_handles (acts : List Act) : (opening.after acts).Lists acts := by
  have hf := agrees_after acts
  have hdrop : ∀ n h, (opening.after acts).handle? n = some h →
      ((opening.after acts).act (.drop n)).hub.registry =
        (opening.after acts).hub.registry.strike h.key n := by
    intro n h hn
    simp only [act, hn, (hf.of_handle hn).1]
    rfl
  refine ⟨hf.on_eq, hf.inOrder.ids_nodup, hf.inOrder.registry.keys_nodup,
    hf.inOrder.registry.ne_nil, fun key => congrArg List.length (hf.on_eq key), hf.total, ?_, ?_,
    fun n => ?_⟩
  · intro n h later hn hsince hclose
    obtain ⟨-, later', hsince', hkept⟩ := hf.of_handle hn
    rw [hsince] at hsince'
    cases hsince'
    have hstands := standing?_of_since hsince hkept
    rw [if_neg hclose] at hstands
    have hon := (hf.on h.key n).mpr hstands
    refine ⟨hon, fun key => ?_⟩
    rw [hdrop n h hn, Registry.on_strike hf.inOrder.registry]
    split
    · rfl
    · rename_i hkey
      refine (List.filter_eq_self.mpr fun i hi => ?_).symm
      have hne : i ≠ n := by
        intro he
        rw [he] at hi
        exact hkey (hf.inOrder.on_unique key h.key n hi hon)
      simpa using hne
  · intro n h later hn hsince hclose
    obtain ⟨-, later', hsince', hkept⟩ := hf.of_handle hn
    rw [hsince] at hsince'
    cases hsince'
    have hfallen := standing?_of_since hsince hkept
    rw [if_pos hclose] at hfallen
    rw [hdrop n h hn]
    refine Registry.strike_of_not_on hf.inOrder.registry fun hon => ?_
    rw [hf.on, hfallen] at hon
    cases hon
  · rw [handle?, hf.handles]
    cases since? n acts <;> rfl

/-- A handle from before a close is dropped, whose key has a new listener since. -/
theorem late_drop_leaves_the_newcomer :
    let acts := [.subscribe "k", .publish "k" [7], .close, .subscribe "k"]
    (opening.after acts).handle? 0 = some ⟨"k", 0⟩ ∧
      ((opening.after acts).act (.drop 0)).hub.registry = [("k", [1])] := by
  have hlists := registry_lists_standing_handles
    [.subscribe "k", .publish "k" [7], .close, .subscribe "k"]
  exact ⟨rfl, hlists.droppedLate 0 ⟨"k", 0⟩ _ rfl rfl (by decide)⟩

end Forum

end Roaming
