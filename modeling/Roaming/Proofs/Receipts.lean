import Mathlib.Tactic.Common
import Roaming.Proofs.Handles

/-!
# What a listener of a hub receives

A listener of a hub can be followed on its own (`Reader`): of all that is done with the hub, only
the publications on its key, its own looks, its release and a close matter to it. The payloads it
has read, followed by those it has not, are the ones that were published on its key while it was
registered and had room.
-/

set_option autoImplicit false
set_option relaxedAutoImplicit false

namespace Roaming

open Roaming.Text (Bytes)

/-- What one listener has: whether its handle is there and whether it is registered, what it has not
read, and what it has. -/
structure Reader where
  isHeld : Bool := true
  isOpen : Bool := true
  unread : Inbox := []
  received : List Bytes := []
deriving DecidableEq, Repr

namespace Forum

/-- The payloads that a listener has read, oldest first. -/
def received (n : Nat) (f : Forum) : List Bytes :=
  (f.readings.filter (·.1 = n)).map (·.2)

/-- The payloads that wait in the inbox of a listener; with the handle the inbox goes. -/
def unread (n : Nat) (f : Forum) : Inbox :=
  match f.handle? n with
  | some h => f.hub.inbox h.id
  | none => []

/-- What the listener with a number, which has a key, has of a hub. -/
def reader (n : Nat) (key : Key) (f : Forum) : Reader where
  isHeld := (f.handle? n).isSome
  isOpen := n ∈ f.hub.registry.on key
  unread := f.unread n
  received := f.received n

/-- The payloads published on a key for as long as a listener of it is neither released nor struck
out by a close, without those that find its inbox full. -/
def heard (n : Nat) (key : Key) : List Act → Forum → List Bytes
  | [], _ => []
  | a :: acts, f =>
    match a with
    | .drop m => if m = n then [] else heard n key acts (f.act a)
    | .close => []
    | .publish k payload =>
      if k = key ∧ (f.unread n).length < Inbox.capacity then
        payload :: heard n key acts (f.act a)
      else heard n key acts (f.act a)
    | _ => heard n key acts (f.act a)

/-- Whether an act matters to a listener of a key. -/
def concerns (n : Nat) (key : Key) : Act → Bool
  | .subscribe _ => false
  | .drop m => m = n
  | .publish k _ => k = key
  | .close => true
  | .receive m => m = n

end Forum

namespace Reader

open Forum (Act concerns)

/-- What an act does to a listener that has a number and a key. -/
def act (n : Nat) (key : Key) (a : Act) (r : Reader) : Reader :=
  match a with
  | .subscribe _ => r
  | .drop m => if m = n then { r with isHeld := false, isOpen := false, unread := [] } else r
  | .publish k payload =>
    if k = key ∧ r.isOpen then { r with unread := r.unread.offer payload } else r
  | .close => { r with isOpen := false }
  | .receive m =>
    if m = n then { r with unread := r.unread.tail, received := r.received ++ r.unread.take 1 }
    else r

def after (n : Nat) (key : Key) (acts : List Act) (r : Reader) : Reader :=
  acts.foldl (fun r a => r.act n key a) r

/-- What its holder sees, who is gone with the handle. -/
def sight? (r : Reader) : Option Sight :=
  if r.isHeld then some (r.unread.sight r.isOpen) else none

variable {n : Nat} {key : Key}

@[simp] theorem after_nil (r : Reader) : r.after n key [] = r := rfl

@[simp] theorem after_cons (a : Act) (acts : List Act) (r : Reader) :
    r.after n key (a :: acts) = (r.act n key a).after n key acts := rfl

theorem after_append (acts acts' : List Act) (r : Reader) :
    r.after n key (acts ++ acts') = (r.after n key acts).after n key acts' :=
  List.foldl_append

theorem act_of_not_concerns {a : Act} (h : concerns n key a = false) (r : Reader) :
    r.act n key a = r := by
  cases a with
  | subscribe k => rfl
  | drop m => exact if_neg (of_decide_eq_false h)
  | publish k payload => exact if_neg fun hk => of_decide_eq_false h hk.1
  | close => cases h
  | receive m => exact if_neg (of_decide_eq_false h)

/-- Nothing else matters. -/
theorem after_filter (acts : List Act) (r : Reader) :
    r.after n key (acts.filter (concerns n key)) = r.after n key acts := by
  induction acts generalizing r with
  | nil => rfl
  | cons a acts ih =>
    cases hc : concerns n key a with
    | true =>
      rw [List.filter_cons_of_pos hc]
      exact ih (r.act n key a)
    | false =>
      rw [List.filter_cons_of_neg (by simp [hc]), after_cons, act_of_not_concerns hc]
      exact ih r

theorem isHeld_after (acts : List Act) (r : Reader) :
    (r.after n key acts).isHeld = (r.isHeld && !acts.contains (.drop n)) := by
  induction acts generalizing r with
  | nil => simp
  | cons a acts ih =>
    rw [after_cons, ih]
    cases a with
    | drop m =>
      by_cases hm : m = n
      · simp [act, hm]
      · simp [act, hm, Ne.symm hm]
    | publish k payload =>
      have hkept : (r.act n key (.publish k payload)).isHeld = r.isHeld := by
        simp only [act]
        split <;> rfl
      simp [hkept]
    | receive m =>
      have hkept : (r.act n key (.receive m)).isHeld = r.isHeld := by
        simp only [act]
        split <;> rfl
      simp [hkept]
    | _ => simp [act]

theorem isOpen_act {a : Act} (hdrop : a ≠ .drop n) (r : Reader) :
    (r.act n key a).isOpen = (r.isOpen && decide (a ≠ .close)) := by
  cases a with
  | drop m =>
    have hm : m ≠ n := fun hm => hdrop (by rw [hm])
    simp [act, hm]
  | publish k payload =>
    simp only [act]
    split <;> simp
  | receive m =>
    simp only [act]
    split <;> simp
  | _ => simp [act]

theorem isOpen_after {acts : List Act} (hdrop : .drop n ∉ acts) (r : Reader) :
    (r.after n key acts).isOpen = (r.isOpen && !acts.contains .close) := by
  induction acts generalizing r with
  | nil => simp
  | cons a acts ih =>
    rw [List.mem_cons, not_or] at hdrop
    rw [after_cons, ih hdrop.2, isOpen_act (Ne.symm hdrop.1), Bool.and_assoc]
    by_cases ha : a = .close
    · simp [ha]
    · simp [ha, Ne.symm ha]

/-- A listener that is not registered reads what it still has, payload by payload. -/
theorem after_of_not_isOpen {acts : List Act} (hdrop : .drop n ∉ acts) {r : Reader}
    (hopen : r.isOpen = false) :
    r.after n key acts = { r with
      unread := r.unread.drop (acts.count (.receive n))
      received := r.received ++ r.unread.take (acts.count (.receive n)) } := by
  induction acts generalizing r with
  | nil => simp
  | cons a acts ih =>
    rw [List.mem_cons, not_or] at hdrop
    rw [after_cons]
    cases a with
    | drop m =>
      have hm : m ≠ n := fun hm => hdrop.1 (by rw [hm])
      have hsame : r.act n key (.drop m) = r := if_neg hm
      rw [hsame, ih hdrop.2 hopen]
      simp
    | receive m =>
      by_cases hm : m = n
      · subst hm
        have hone : r.act m key (.receive m) =
            { r with unread := r.unread.tail, received := r.received ++ r.unread.take 1 } :=
          if_pos rfl
        have hopen' : (r.act m key (.receive m)).isOpen = false := by
          rw [hone]
          exact hopen
        rw [ih hdrop.2 hopen', hone, List.count_cons_self]
        cases r.unread <;> simp
      · have hsame : r.act n key (.receive m) = r := if_neg hm
        rw [hsame, ih hdrop.2 hopen]
        simp [hm]
    | publish k payload =>
      have hsame : r.act n key (.publish k payload) = r := if_neg fun hk => by simp [hopen] at hk
      rw [hsame, ih hdrop.2 hopen]
      simp
    | subscribe k =>
      have hsame : r.act n key (.subscribe k) = r := rfl
      rw [hsame, ih hdrop.2 hopen]
      simp
    | close =>
      have hsame : r.act n key .close = r := by
        rw [act, ← hopen]
      rw [hsame, ih hdrop.2 hopen]
      simp

/-- What a listener has read and has not read grows by a payload at a time, if there is room. -/
theorem act_grows {a : Act} (hdrop : a ≠ .drop n) (r : Reader) :
    (r.act n key a).received ++ (r.act n key a).unread = r.received ++ r.unread ++
      match a with
      | .publish k payload =>
        if k = key ∧ r.isOpen ∧ r.unread.length < Inbox.capacity then [payload] else []
      | _ => [] := by
  cases a with
  | drop m =>
    have hm : m ≠ n := fun hm => hdrop (by rw [hm])
    simp [act, hm]
  | publish k payload =>
    by_cases hk : k = key ∧ r.isOpen
    · by_cases hroom : r.unread.length < Inbox.capacity
      · simp [act, hk, Inbox.offer, Inbox.hasRoom, hroom]
      · simp [act, hk, Inbox.offer, Inbox.hasRoom, hroom]
    · have hnone : ¬ (k = key ∧ r.isOpen ∧ r.unread.length < Inbox.capacity) :=
        fun h => hk ⟨h.1, h.2.1⟩
      simp only [act, if_neg hk, if_neg hnone, List.append_nil]
  | receive m =>
    by_cases hm : m = n
    · cases hunread : r.unread <;> simp [act, hm, hunread]
    · simp [act, hm]
  | _ => simp [act]

/-- With the handle everything ends. -/
theorem received_after_of_not_isHeld (acts : List Act) {r : Reader} (hopen : r.isOpen = false)
    (hunread : r.unread = []) : (r.after n key acts).received = r.received := by
  induction acts generalizing r with
  | nil => rfl
  | cons a acts ih =>
    have hkept : (r.act n key a).isOpen = false ∧ (r.act n key a).unread = [] ∧
        (r.act n key a).received = r.received := by
      cases a with
      | subscribe k => exact ⟨hopen, hunread, rfl⟩
      | drop m =>
        simp only [act]
        split
        · exact ⟨rfl, rfl, rfl⟩
        · exact ⟨hopen, hunread, rfl⟩
      | publish k payload =>
        have hsame : r.act n key (.publish k payload) = r := if_neg fun hk => by simp [hopen] at hk
        rw [hsame]
        exact ⟨hopen, hunread, rfl⟩
      | close => exact ⟨rfl, hunread, rfl⟩
      | receive m =>
        simp only [act]
        split
        · exact ⟨hopen, by rw [hunread]; rfl, by simp [hunread]⟩
        · exact ⟨hopen, hunread, rfl⟩
    rw [after_cons, ih hkept.1 hkept.2.1]
    exact hkept.2.2

end Reader

namespace Forum

variable {f : Forum} {acts : List Act} {n : Nat} {key : Key} {later : List Act}

/-! ### A listener among others -/

theorem Agrees.lt_next (hf : f.Agrees acts) (hsince : since? n acts = some (key, later)) :
    n < f.hub.next := by
  rw [hf.next]
  by_contra hle
  rw [since?_eq_none.mpr (Nat.not_lt.mp hle)] at hsince
  cases hsince

/-- A listener is registered on its own key at most, and only while its handle is there. -/
theorem Agrees.of_on (hf : f.Agrees acts) (hsince : since? n acts = some (key, later)) {k : Key}
    (hon : n ∈ f.hub.registry.on k) : k = key ∧ f.handle? n = some ⟨key, n⟩ := by
  have hstanding := (hf.on k n).mp hon
  have hdrop : .drop n ∉ later := by
    intro hdrop
    simp [standing?, hsince, hdrop] at hstanding
  rw [standing?_of_since hsince hdrop] at hstanding
  split at hstanding
  · cases hstanding
  · cases hstanding
    exact ⟨rfl, hf.handle_of_since hsince hdrop⟩

theorem unread_of_handle (hn : f.handle? n = some ⟨key, n⟩) : f.unread n = f.hub.inbox n := by
  rw [unread, hn]

theorem unread_of_no_handle (hn : f.handle? n = none) : f.unread n = [] := by
  rw [unread, hn]

/-- The handle of a listener is there, or the listener has nothing left. -/
theorem Agrees.handle_cases (hf : f.Agrees acts) (hsince : since? n acts = some (key, later)) :
    f.handle? n = some ⟨key, n⟩ ∧ f.hub.Holds n ∨
      f.handle? n = none ∧ n ∉ f.hub.registry.on key := by
  cases hn : f.handle? n with
  | some h =>
    obtain ⟨hid, later', hsince', -⟩ := hf.of_handle hn
    rw [hsince] at hsince'
    cases hsince'
    obtain ⟨k, id⟩ := h
    dsimp only at hid
    subst hid
    exact .inl ⟨rfl, hf.holds _ _ hn⟩
  | none =>
    refine .inr ⟨rfl, fun hon => ?_⟩
    rw [(hf.of_on hsince hon).2] at hn
    cases hn

/-- What an act does not touch is as before. -/
theorem Agrees.unread_congr (hf : f.Agrees acts) (hsince : since? n acts = some (key, later))
    {g : Forum} (hhandle : g.handle? n = f.handle? n)
    (hinbox : f.hub.Holds n → g.hub.inbox n = f.hub.inbox n) : g.unread n = f.unread n := by
  rcases hf.handle_cases hsince with ⟨hn, hholds⟩ | ⟨hn, -⟩
  · rw [unread_of_handle hn, unread_of_handle (hhandle.trans hn)]
    exact hinbox hholds
  · rw [unread_of_no_handle hn, unread_of_no_handle (hhandle.trans hn)]

private theorem reader_subscribe (hf : f.Agrees acts) (hsince : since? n acts = some (key, later))
    (k : Key) : (f.act (.subscribe k)).reader n key = f.reader n key := by
  have hlt := hf.lt_next hsince
  have hhandle : (f.act (.subscribe k)).handle? n = f.handle? n := by
    have hhandles : (f.act (.subscribe k)).handles = f.handles ++ [some ⟨k, f.hub.next⟩] := rfl
    have hlength : n < f.handles.length := by
      rw [hf.length, ← hf.next]
      exact hlt
    rw [handle?, hhandles, List.getElem?_append_left hlength]
    rfl
  have hunread := hf.unread_congr hsince hhandle fun hholds => Listeners.inbox_add hholds k
  have hon : n ∈ (f.act (.subscribe k)).hub.registry.on key ↔ n ∈ f.hub.registry.on key := by
    change n ∈ (f.hub.registry.enroll k f.hub.next).on key ↔ _
    rw [Registry.on_enroll]
    split
    · simp [Nat.ne_of_lt hlt]
    · rfl
  simp only [reader, hhandle, hunread, hon]
  rfl

private theorem reader_drop (hf : f.Agrees acts) (hsince : since? n acts = some (key, later))
    (m : Nat) : (f.act (.drop m)).reader n key = (f.reader n key).act n key (.drop m) := by
  cases hm : f.handle? m with
  | none =>
    have hsame : f.act (.drop m) = f := by simp only [act, hm]
    rw [hsame]
    by_cases hmn : m = n
    · -- Its handle was dropped before.
      subst hmn
      have hon : m ∉ f.hub.registry.on key := fun hon => by
        rw [(hf.of_on hsince hon).2] at hm
        cases hm
      simp [reader, Reader.act, hm, hon, unread_of_no_handle hm]
    · simp [Reader.act, hmn]
  | some h =>
    have hid := (hf.of_handle hm).1
    have hact : f.act (.drop m) = { f with
        hub := f.hub.release h.key m, handles := f.handles.set m none } := by
      simp only [act, hm, hid]
      rfl
    have hreceived : (f.act (.drop m)).received n = f.received n := by
      rw [hact]
      rfl
    have hon : n ∈ (f.act (.drop m)).hub.registry.on key ↔
        n ∈ f.hub.registry.on key ∧ n ≠ m := by
      rw [(hf.act (.drop m)).on, hf.on, standing?_concat]
      by_cases hmn : m = n
      · simp [hmn]
      · simp [hmn, Ne.symm hmn]
    by_cases hmn : m = n
    · subst hmn
      have hgone : (f.act (.drop m)).handle? m = none := by
        rw [hact, handle?, List.getElem?_set]
        split
        · split <;> rfl
        · contradiction
      simp [reader, Reader.act, hgone, hon, unread_of_no_handle hgone, hreceived]
    · have hhandle : (f.act (.drop m)).handle? n = f.handle? n := by
        rw [hact, handle?, List.getElem?_set_ne hmn]
        rfl
      have hunread : (f.act (.drop m)).unread n = f.unread n := by
        refine hf.unread_congr hsince hhandle fun _ => ?_
        rw [hact]
        exact Listeners.inbox_release (Ne.symm hmn) h.key
      simp [reader, Reader.act, hmn, hhandle, hunread, hreceived, hon, Ne.symm hmn]

private theorem reader_publish (hf : f.Agrees acts) (hsince : since? n acts = some (key, later))
    (k : Key) (payload : Bytes) :
    (f.act (.publish k payload)).reader n key =
      (f.reader n key).act n key (.publish k payload) := by
  have hreader : (f.act (.publish k payload)).reader n key =
      { f.reader n key with unread := (f.act (.publish k payload)).unread n } := rfl
  have hinbox : f.hub.Holds n → (f.act (.publish k payload)).hub.inbox n =
      if n ∈ f.hub.registry.on k then (f.hub.inbox n).offer payload else f.hub.inbox n :=
    fun hholds => Listeners.inbox_offer hholds k payload
  rw [hreader]
  simp only [Reader.act, reader, decide_eq_true_eq]
  by_cases hk : k = key ∧ n ∈ f.hub.registry.on key
  · obtain ⟨rfl, hon⟩ := hk
    have hn := (hf.of_on hsince hon).2
    have hunread : (f.act (.publish k payload)).unread n = (f.unread n).offer payload := by
      rw [unread_of_handle hn, unread_of_handle (f := f.act (.publish k payload)) hn,
        hinbox (hf.holds n _ hn), if_pos hon]
    rw [if_pos ⟨rfl, hon⟩, hunread]
  · have hoff : n ∉ f.hub.registry.on k := by
      intro hon
      obtain ⟨rfl, -⟩ := hf.of_on hsince hon
      exact hk ⟨rfl, hon⟩
    have hunread : (f.act (.publish k payload)).unread n = f.unread n :=
      hf.unread_congr hsince rfl fun hholds => (hinbox hholds).trans (if_neg hoff)
    rw [if_neg hk, hunread]

/-- A look finds a payload, or changes nothing. -/
theorem Agrees.receive_cases (hf : f.Agrees acts) (m : Nat) :
    (∃ k payload rest, f.handle? m = some ⟨k, m⟩ ∧ f.hub.inbox m = payload :: rest ∧
      f.act (.receive m) =
        { f with hub := f.hub.take m, readings := f.readings ++ [(m, payload)] }) ∨
    f.unread m = [] ∧ f.act (.receive m) = f := by
  cases hm : f.handle? m with
  | none => exact .inr ⟨unread_of_no_handle hm, by simp only [Forum.act, hm]⟩
  | some h =>
    obtain ⟨k, id⟩ := h
    have hid : id = m := (hf.of_handle hm).1
    subst hid
    have hsight : f.sight? id = some (f.hub.sight id) := by rw [sight?, hm, Option.map_some]
    cases hinbox : f.hub.inbox id with
    | nil =>
      refine .inr ⟨(unread_of_handle hm).trans hinbox, ?_⟩
      have hnone : ∀ payload, f.hub.sight id ≠ .message payload := by
        intro payload hs
        obtain ⟨rest, hrest⟩ := Listeners.sight_eq_message.mp hs
        rw [hinbox] at hrest
        cases hrest
      simp only [Forum.act, hm, hsight]
      split
      · rename_i hs
        exact absurd (Option.some.inj hs) (hnone _)
      · rfl
    | cons payload rest =>
      have hs := Listeners.sight_eq_message.mpr ⟨rest, hinbox⟩
      exact .inl ⟨k, payload, rest, rfl, rfl, by simp only [Forum.act, hm, hsight, hs]⟩

private theorem reader_receive (hf : f.Agrees acts) (hsince : since? n acts = some (key, later))
    (m : Nat) : (f.act (.receive m)).reader n key = (f.reader n key).act n key (.receive m) := by
  rcases hf.receive_cases m with ⟨k, payload, rest, hm, hinbox, hact⟩ | ⟨hempty, hact⟩
  · have hhandle : (f.act (.receive m)).handle? n = f.handle? n := by
      rw [hact]
      rfl
    have hregistry : (f.act (.receive m)).hub.registry = f.hub.registry := by
      rw [hact]
      rfl
    have htaken : (f.act (.receive m)).hub.inbox n =
        if n = m then (f.hub.inbox n).tail else f.hub.inbox n := by
      rw [hact]
      exact Listeners.inbox_take m n
    have hreceived : (f.act (.receive m)).received n =
        f.received n ++ if m = n then [payload] else [] := by
      rw [hact, received, List.filter_append, List.map_append]
      by_cases hmn : m = n
      · simp [hmn, received]
      · simp [hmn, received]
    by_cases hmn : m = n
    · subst hmn
      have hunread : (f.act (.receive m)).unread m = (f.unread m).tail := by
        rw [unread_of_handle hm, unread_of_handle (hhandle.trans hm), htaken, if_pos rfl]
      have hone : (f.unread m).take 1 = [payload] := by
        rw [unread_of_handle hm, hinbox, List.take_succ_cons, List.take_zero]
      simp [reader, Reader.act, hhandle, hregistry, hunread, hreceived, hone]
    · have hunread := hf.unread_congr hsince hhandle fun _ => htaken.trans (if_neg (Ne.symm hmn))
      simp [reader, Reader.act, hmn, hhandle, hregistry, hunread, hreceived]
  · rw [hact]
    by_cases hmn : m = n
    · subst hmn
      simp [reader, Reader.act, hempty]
    · simp [Reader.act, hmn]

/-- What is done with a hub does to each of its listeners what it would do to the listener alone. -/
theorem Agrees.reader_act (hf : f.Agrees acts) (hsince : since? n acts = some (key, later))
    (a : Act) : (f.act a).reader n key = (f.reader n key).act n key a := by
  cases a with
  | subscribe k => exact reader_subscribe hf hsince k
  | drop m => exact reader_drop hf hsince m
  | publish k payload => exact reader_publish hf hsince k payload
  | close =>
    have hon : n ∉ (f.act .close).hub.registry.on key := List.not_mem_nil
    have hunread : (f.act .close).unread n = f.unread n := rfl
    have hreceived : (f.act .close).received n = f.received n := rfl
    have hhandle : (f.act .close).handle? n = f.handle? n := rfl
    simp [reader, Reader.act, hon, hunread, hreceived, hhandle]
  | receive m => exact reader_receive hf hsince m

theorem since?_append (hsince : since? n acts = some (key, later)) (more : List Act) :
    since? n (acts ++ more) = some (key, later ++ more) := by
  induction more generalizing acts later with
  | nil => simpa using hsince
  | cons a more ih =>
    have hnext : since? n (acts ++ [a]) = some (key, later ++ [a]) := by rw [since?_concat, hsince]
    rw [List.append_cons acts, List.append_cons later]
    exact ih hnext

theorem Agrees.after (hf : f.Agrees acts) (more : List Act) :
    (f.after more).Agrees (acts ++ more) := by
  induction more generalizing f acts with
  | nil => simpa using hf
  | cons a more ih =>
    rw [List.append_cons]
    exact ih (hf.act a)

theorem Agrees.reader_after (hf : f.Agrees acts) (hsince : since? n acts = some (key, later))
    (more : List Act) : (f.after more).reader n key = (f.reader n key).after n key more := by
  induction more generalizing f acts later with
  | nil => rfl
  | cons a more ih =>
    rw [after_cons, Reader.after_cons, ← hf.reader_act hsince a]
    exact ih (hf.act a) (since?_append hsince [a])

/-- What its holder sees is told from what the listener has. -/
theorem Agrees.sight?_eq (hf : f.Agrees acts) (hsince : since? n acts = some (key, later)) :
    f.sight? n = (f.reader n key).sight? := by
  rcases hf.handle_cases hsince with ⟨hn, -⟩ | ⟨hn, -⟩
  · have hopen : f.hub.isOpen n = decide (n ∈ f.hub.registry.on key) := by
      rw [Bool.eq_iff_iff, Listeners.isOpen_iff hf.inOrder, decide_eq_true_eq]
      constructor
      · rintro ⟨k, hon⟩
        exact (hf.of_on hsince hon).1 ▸ hon
      · intro hon
        exact ⟨key, hon⟩
    simp [sight?, Reader.sight?, reader, hn, Listeners.sight, hopen, unread_of_handle hn]
  · simp [sight?, Reader.sight?, reader, hn]

/-! ### What was published for a listener -/

/-- What a listener has read and has not read grows by what is published for it. -/
private theorem Agrees.heard_after (hf : f.Agrees acts) (hsince : since? n acts = some (key, later))
    {more : List Act} (hdrop : .drop n ∉ more) :
    (f.after more).received n ++ (f.after more).unread n =
      f.received n ++ f.unread n ++
        if n ∈ f.hub.registry.on key then heard n key more f else [] := by
  induction more generalizing f acts later with
  | nil => simp [heard]
  | cons a more ih =>
    rw [List.mem_cons, not_or] at hdrop
    have hreader := hf.reader_act hsince a
    have hkept : a ≠ .drop n := Ne.symm hdrop.1
    have hgrows : ((f.reader n key).act n key a).received ++ _ = _ := Reader.act_grows hkept _
    rw [← hreader] at hgrows
    have hopens : n ∈ (f.act a).hub.registry.on key ↔ n ∈ f.hub.registry.on key ∧ a ≠ .close := by
      have h : ((f.reader n key).act n key a).isOpen = _ := Reader.isOpen_act hkept _
      rw [← hreader] at h
      rw [Bool.eq_iff_iff] at h
      simpa [reader] using h
    change (f.act a).received n ++ (f.act a).unread n = f.received n ++ f.unread n ++ _ at hgrows
    rw [after_cons, ih (hf.act a) (since?_append hsince [a]) hdrop.2, hgrows, List.append_assoc]
    congr 1
    by_cases hon : n ∈ f.hub.registry.on key
    · cases a with
      | drop m =>
        have hm : m ≠ n := fun hm => hdrop.1 (by rw [hm])
        simp [heard, hopens, hon, hm]
      | publish k payload =>
        have hon' := hopens.mpr ⟨hon, by simp⟩
        rw [if_pos hon, if_pos hon']
        by_cases hheard : k = key ∧ (f.unread n).length < Inbox.capacity
        · obtain ⟨rfl, hroom⟩ := hheard
          simp [heard, reader, hon, hroom]
        · have hnone : ¬ (k = key ∧ (f.reader n key).isOpen ∧
              (f.reader n key).unread.length < Inbox.capacity) := fun h => hheard ⟨h.1, h.2.2⟩
          simp only [heard, if_neg hheard, if_neg hnone, List.nil_append]
      | _ => simp [heard, hopens, hon]
    · have hoff : n ∉ (f.act a).hub.registry.on key := fun h => hon (hopens.mp h).1
      rw [if_neg hon, if_neg hoff]
      cases a <;> simp [reader, hon]

/-- Nothing is published for a listener once it is released. -/
theorem heard_append_drop (earlier later : List Act) (f : Forum) :
    heard n key (earlier ++ .drop n :: later) f = heard n key earlier f := by
  induction earlier generalizing f with
  | nil => exact if_pos rfl
  | cons a earlier ih =>
    cases a with
    | close => rfl
    | _ => simp only [List.cons_append, heard, ih]

/-! ### A listener from its subscription on -/

/-- Nothing was read under a number that no handle has yet. -/
private theorem readings_lt (acts : List Act) :
    ∀ r ∈ (opening.after acts).readings, r.1 < made acts := by
  induction acts using List.reverseRecOn with
  | nil => exact fun r hr => absurd hr List.not_mem_nil
  | append_singleton acts a ih =>
    rw [after_concat, made_append]
    have hlift : ∀ r ∈ (opening.after acts).readings, r.1 < made acts + made [a] :=
      fun r hr => Nat.lt_add_right _ (ih r hr)
    cases a with
    | drop m =>
      simp only [act]
      split <;> exact hlift
    | receive m =>
      have hf := agrees_after acts
      rcases hf.receive_cases m with ⟨k, payload, rest, hm, -, hact⟩ | ⟨-, hact⟩
      · rw [hact]
        intro r hr
        rcases List.mem_append.mp hr with hr | hr
        · exact hlift r hr
        · rw [List.mem_singleton.mp hr]
          obtain ⟨-, later, hsince, -⟩ := hf.of_handle hm
          have hlt := hf.lt_next hsince
          rw [hf.next] at hlt
          exact Nat.lt_add_right _ hlt
      · rw [hact]
        exact hlift
    | _ => exact hlift

private theorem since?_newcomer (before : List Act) (key : Key) :
    since? (made before) (before ++ [.subscribe key]) = some (key, []) := by
  rw [since?_concat, since?_eq_none.mpr (Nat.le_refl _)]
  simp

private theorem reader_newcomer (before : List Act) (key : Key) :
    (opening.after (before ++ [.subscribe key])).reader (made before) key = {} := by
  have hf := agrees_after before
  have hg := agrees_after (before ++ [.subscribe key])
  have hsince := since?_newcomer before key
  have hn := hg.handle_of_since hsince List.not_mem_nil
  have hon : made before ∈ (opening.after (before ++ [.subscribe key])).hub.registry.on key := by
    rw [hg.on, standing?_of_since hsince List.not_mem_nil, if_neg List.not_mem_nil]
  have hunread : (opening.after (before ++ [.subscribe key])).unread (made before) = [] := by
    rw [unread_of_handle hn, after_concat, ← hf.next]
    exact Listeners.inbox_add_next hf.inOrder.not_holds_next key
  have hreceived : (opening.after (before ++ [.subscribe key])).received (made before) = [] := by
    have hnone : (opening.after before).readings.filter (·.1 = made before) = [] := by
      rw [List.filter_eq_nil_iff]
      intro r hr
      have := readings_lt before r hr
      simp only [decide_eq_true_eq]
      omega
    rw [after_concat]
    exact congrArg (List.map Prod.snd) hnone
  simp [reader, hn, hon, hunread, hreceived]

/-- What a listener has, which was registered on a key at the start, after more was done. -/
structure Receives (n : Nat) (key : Key) (start : Forum) (more : List Act) : Prop where
  /-- Until it is released, it has read or can read all that was published for it, once and in
  order. -/
  whole : .drop n ∉ more →
    (start.after more).received n ++ (start.after more).unread n = heard n key more start
  /-- Once it is released, it reads nothing more, and nothing more was published for it. -/
  released : ∀ before later, more = before ++ .drop n :: later → .drop n ∉ before →
    (start.after more).handle? n = none ∧
      (start.after more).received n = (start.after before).received n ∧
      (start.after before).received n ++ (start.after before).unread n = heard n key more start
  /-- It has what it would have if nothing else had been done. -/
  alone : ∀ f g, f = start.after more → g = start.after (more.filter (concerns n key)) →
    f.received n = g.received n ∧ f.unread n = g.unread n ∧ f.sight? n = g.sight? n
  /-- It sees the oldest payload, and without one whether the hub was closed. -/
  sight : .drop n ∉ more →
    (start.after more).sight? n = some (((start.after more).unread n).sight (.close ∉ more))
  /-- After a close it reads what it has, one payload at a look, and gets nothing more. -/
  closed : ∀ before later, more = before ++ .close :: later → .drop n ∉ more →
    (start.after more).received n = (start.after before).received n ++
        ((start.after before).unread n).take (later.count (.receive n)) ∧
      (start.after more).unread n =
        ((start.after before).unread n).drop (later.count (.receive n))
  /-- Who listens does not depend on what is published. -/
  publish : ∀ k payload f, f = (start.after more).act (.publish k payload) →
    f.hub.registry = (start.after more).hub.registry ∧ f.handles = (start.after more).handles

/-- A listener receives what is published on its key from its subscription to its release or the
next close, without what it has no room for. -/
theorem listener_receives_what_is_published (before more : List Act) (key : Key) :
    Receives (made before) key (opening.after (before ++ [.subscribe key])) more := by
  have hf := agrees_after (before ++ [.subscribe key])
  have hsince := since?_newcomer before key
  have hstart := reader_newcomer before key
  generalize made before = n at *
  generalize opening.after (before ++ [.subscribe key]) = start at *
  have hreader : ∀ acts, (start.after acts).reader n key = Reader.after n key acts {} := by
    intro acts
    rw [hf.reader_after hsince, hstart]
  have hreceived : ∀ acts, (start.after acts).received n = (Reader.after n key acts {}).received :=
    fun acts => congrArg Reader.received (hreader acts)
  have hunread : ∀ acts, (start.after acts).unread n = (Reader.after n key acts {}).unread :=
    fun acts => congrArg Reader.unread (hreader acts)
  have hsight : ∀ acts, (start.after acts).sight? n = (Reader.after n key acts {}).sight? := by
    intro acts
    rw [(hf.after acts).sight?_eq (since?_append hsince acts), hreader]
  have hheard : ∀ {acts}, .drop n ∉ acts →
      (start.after acts).received n ++ (start.after acts).unread n = heard n key acts start := by
    intro acts hdrop
    have hnone : start.received n ++ start.unread n = [] :=
      congrArg (fun r : Reader => r.received ++ r.unread) hstart
    have hon : n ∈ start.hub.registry.on key := by
      have h := congrArg Reader.isOpen hstart
      simpa [reader] using h
    rw [hf.heard_after hsince hdrop, hnone, if_pos hon, List.nil_append]
  constructor
  · exact hheard
  · rintro earlier later rfl hdrop
    have hrun : Reader.after n key (earlier ++ .drop n :: later) {} =
        ((Reader.after n key earlier {}).act n key (.drop n)).after n key later := by
      rw [Reader.after_append, Reader.after_cons]
    have hdropped : (Reader.after n key earlier {}).act n key (.drop n) =
        { Reader.after n key earlier {} with isHeld := false, isOpen := false, unread := [] } :=
      if_pos rfl
    refine ⟨?_, ?_, (hheard hdrop).trans (heard_append_drop earlier later start).symm⟩
    · have hheld := congrArg Reader.isHeld (hreader (earlier ++ .drop n :: later))
      rw [Reader.isHeld_after] at hheld
      simpa [reader] using hheld
    · rw [hreceived, hreceived, hrun, Reader.received_after_of_not_isHeld, hdropped]
      · rw [hdropped]
      · rw [hdropped]
  · rintro f g rfl rfl
    simp only [hreceived, hunread, hsight, Reader.after_filter, and_self]
  · intro hdrop
    rw [hsight, hunread, Reader.sight?, Reader.isHeld_after, Reader.isOpen_after hdrop]
    simp [hdrop]
  · rintro earlier later rfl hdrop
    have hdrop' : .drop n ∉ later :=
      fun h => hdrop (List.mem_append_right _ (List.mem_cons_of_mem _ h))
    have hrun : Reader.after n key (earlier ++ .close :: later) {} =
        ((Reader.after n key earlier {}).act n key .close).after n key later := by
      rw [Reader.after_append, Reader.after_cons]
    rw [hreceived, hreceived, hunread, hunread, hrun, Reader.after_of_not_isOpen hdrop' rfl]
    exact ⟨rfl, rfl⟩
  · rintro k payload f rfl
    exact ⟨rfl, rfl⟩

/-- Five payloads for two listeners, of which the first reads one in between and the second reads
only after the close. -/
theorem late_reader_misses_the_fifth :
    let more := [.publish "k" [1], .publish "k" [2], .publish "j" [9], .publish "k" [3], .receive 0,
      .publish "k" [4], .publish "k" [5], .close, .publish "k" [6], .receive 1]
    let f := (opening.after [.subscribe "k", .subscribe "k"]).after more
    f.received 1 ++ f.unread 1 = [[1], [2], [3], [4]] ∧
      f.received 0 ++ f.unread 0 = [[1], [2], [3], [4], [5]] ∧
      f.received 1 = [[1]] ∧ f.sight? 1 = some (.message [2]) := by
  have second := listener_receives_what_is_published [.subscribe "k"]
    [.publish "k" [1], .publish "k" [2], .publish "j" [9], .publish "k" [3], .receive 0,
      .publish "k" [4], .publish "k" [5], .close, .publish "k" [6], .receive 1] "k"
  have first := listener_receives_what_is_published []
    [.subscribe "k", .publish "k" [1], .publish "k" [2], .publish "j" [9], .publish "k" [3],
      .receive 0, .publish "k" [4], .publish "k" [5], .close, .publish "k" [6], .receive 1] "k"
  exact ⟨(second.whole (by decide)).trans (by decide), (first.whole (by decide)).trans (by decide),
    by decide, by decide⟩

end Forum

end Roaming
