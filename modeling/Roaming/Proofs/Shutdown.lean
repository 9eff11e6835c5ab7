import Mathlib.Data.List.Induction
import Roaming.Proofs.Bystanders

/-!
# Shutdown

Once the agent of a tenure has left its loop, whatever made it leave, nobody is left waiting: the
calls whose commands it has not taken come to a failure, listeners read what their inboxes hold and
then find them closed, no listener stays registered but those of calls that are about to fail, and
every call to close returns, after the listeners were struck out.
-/

set_option autoImplicit false
set_option relaxedAutoImplicit false

namespace Roaming.Redis

open Roaming.Text (Bytes)

/-- Whether a call to subscribe has not returned yet. -/
def Hold.isPending : Hold → Bool
  | .registered | .waiting _ | .failed => true
  | .held | .leaving _ => false

namespace Tenure

variable {s : Tenure}

/-! ### Subscribers who wait -/

theorem Attended.lt (h : s.Attended) {u : Subscriber} (hu : u ∈ s.system.subscribers)
    {call : CallId} (hcall : u.hold = .waiting call) : call < s.calls.length :=
  (List.getElem?_eq_some_iff.mp (h.waits u hu call hcall)).1

private theorem Attended.meanwhile (h : s.Attended) (hstaffed : s.Staffed)
    (hs : s.system.halted.Seated) (a : Act) : (s.meanwhile a).Attended where
  waits u hu call hcall := by
    rcases System.becomes_of_mem hs hu with hold | hbecomes
    · have hx := h.waits u hold call hcall
      have hsettled : (settle (s.system.settled a) s.calls)[call]? =
          some ⟨.subscribe call u.channel, .waiting⟩ := by
        cases hset : s.system.settled a with
        | none => exact hx
        | some o =>
          obtain ⟨call', progress⟩ := o
          obtain ⟨-, id, channel, hv, hgone⟩ := System.settled_eq_some hset
          have hne : call' ≠ call := by
            rintro rfl
            exact hgone u hu (h.alone u hold _ hv call' hcall rfl) call' hcall
          rw [settle, getElem?_moved, if_neg hne]
          exact hx
      simp only [Tenure.meanwhile]
      rw [List.getElem?_append_left (List.getElem?_eq_some_iff.mp hsettled).1]
      exact hsettled
    · cases hbecomes with
      | waiting id channel ha hhanded =>
        cases hcall
        have hlength := (length_settle (s.system.settled a) s.calls).trans hstaffed.counts
        simp only [Tenure.meanwhile]
        rw [hhanded, ← hlength]
        exact List.getElem?_concat_length
      | _ => cases hcall
  alone u hu v hv call hcall hcall' := by
    have hnew : ∀ w ∈ s.system.subscribers, w.hold = .waiting call →
        call ≠ s.system.link.nextCall := fun w hw hwcall => by
      have hlt := h.lt hw hwcall
      rw [hstaffed.counts] at hlt
      exact Nat.ne_of_lt hlt
    rcases System.becomes_of_mem hs hu with hold | hbecomes
    · rcases System.becomes_of_mem hs hv with hold' | hbecomes'
      · exact h.alone u hold v hold' call hcall hcall'
      · cases hbecomes' with
        | waiting id channel ha hhanded =>
          cases hcall'
          exact absurd rfl (hnew u hold hcall)
        | _ => cases hcall'
    · cases hbecomes with
      | waiting id channel ha hhanded =>
        cases hcall
        rcases System.becomes_of_mem hs hv with hold' | hbecomes'
        · exact absurd rfl (hnew v hold' hcall')
        · cases hbecomes' with
          | waiting id' channel' ha' hhanded' =>
            cases ha.symm.trans ha'
            rfl
          | _ => cases hcall'
      | _ => cases hcall
  served call k channel hx := by
    have hold : (settle (s.system.settled a) s.calls)[call]? =
        some ⟨.subscribe k channel, .waiting⟩ →
        ∃ id, ⟨id, channel, .waiting call⟩ ∈ (s.system.act a).subscribers := by
      intro hx
      have hboth : s.calls[call]? = some ⟨.subscribe k channel, .waiting⟩ ∧
          ∀ progress, s.system.settled a ≠ some (call, progress) := by
        cases hset : s.system.settled a with
        | none =>
          rw [hset] at hx
          exact ⟨hx, by simp⟩
        | some o =>
          obtain ⟨call', progress⟩ := o
          rw [hset] at hx
          rcases moved_eq_some hx with ⟨hne, hx⟩ | ⟨-, rfl, -⟩
          · exact ⟨hx, by rintro _ ⟨⟩; exact hne rfl⟩
          · exact absurd rfl (System.settled_eq_some hset).1
      obtain ⟨id, hu⟩ := h.served call k channel hboth.1
      rcases System.waiting_of_act hs hu with hu | ⟨progress, hset⟩
      · exact ⟨id, hu⟩
      · exact absurd hset (hboth.2 progress)
    simp only [Tenure.meanwhile] at hx ⊢
    rcases System.handed_cases s.system a with hnone | ⟨command, hhanded⟩
    · rw [hnone, List.map_nil, List.append_nil] at hx
      exact hold hx
    · rw [hhanded] at hx
      rcases getElem?_added hx with hx | ⟨rfl, he⟩
      · exact hold hx
      · cases he
        rw [length_settle, hstaffed.counts]
        exact System.mem_of_handed hhanded

/-- Whoever waits, is not moved on by what becomes of other calls. -/
private theorem Attended.moved (h : s.Attended) {call : CallId} {command : Command}
    {earlier later : Progress} (hx : s.calls[call]? = some ⟨command, earlier⟩)
    (hcommand : ∀ k channel, command ≠ .subscribe k channel) {t : System}
    (hsub : t.subscribers = s.system.subscribers) (hlater : later ≠ .waiting) {hasTask : Bool} :
    Attended { s with system := t, calls := moved call later s.calls, hasTask } where
  waits u hu k hk := by
    have hwaits := h.waits u (hsub ▸ hu) k hk
    have hne : call ≠ k := by
      rintro rfl
      cases hx.symm.trans hwaits
      exact hcommand _ _ rfl
    rw [getElem?_moved, if_neg hne]
    exact hwaits
  alone u hu v hv := h.alone u (hsub ▸ hu) v (hsub ▸ hv)
  served k i channel hk := by
    rcases moved_eq_some hk with ⟨-, hk⟩ | ⟨-, he, -⟩
    · exact hsub ▸ h.served k i channel hk
    · exact absurd he.symm hlater

theorem Attended.turn (h : s.Attended) (hstaffed : s.Staffed) (hs : s.system.halted.Seated)
    (e : Turn) : (s.turn e).Attended := by
  have hsame : ∀ {t : Tenure}, t.system.subscribers = s.system.subscribers → t.calls = s.calls →
      t.Attended := by
    intro t hsub hcalls
    refine ⟨fun u hu => ?_, fun u hu v hv => h.alone u (hsub ▸ hu) v (hsub ▸ hv), ?_⟩
    · exact hcalls ▸ h.waits u (hsub ▸ hu)
    · rw [hcalls, hsub]
      exact h.served
  have hchange := s.turn_change e
  generalize s.turn e = t at hchange
  cases hchange with
  | still => exact h
  | departs a t ha hserving hleft => exact hsame (System.departure_same hleft).1 rfl
  | serves a ha hserving hstays => exact hsame (System.subscribers_of_agents ha) rfl
  | others a ha => exact h.meanwhile hstaffed hs a
  | letsIn | clears | drops | finishes => exact hsame rfl rfl
  | fetches call k channel payload r hx =>
    refine h.moved hx (by simp) ?_ (by simp)
    rfl
  | hears call k r hx =>
    refine h.moved hx (by simp) ?_ (by simp)
    rfl
  | claims call k hx => exact h.moved hx (by simp) rfl (by split <;> simp)
  | joins call k hx => exact h.moved hx (by simp) rfl (by simp)
  | leaves call command progress hx hcommand =>
    refine h.moved hx hcommand ?_ (by simp)
    rfl

/-! ### Listeners that are registered -/

/-- What is true of the listeners of a tenure at all times. -/
structure Placed (s : Tenure) : Prop where
  seated : s.phase = .serving → s.system.Seated
  placed : s.system.halted.Seated
  /-- Once the listeners are struck out, whoever has one came too late for the agent. -/
  late : s.phase.isCleared = true → ∀ channel, ∀ id ∈ s.system.link.listeners.registry.on channel,
    ∀ hold, ⟨id, channel, hold⟩ ∈ s.system.subscribers →
      hold ≠ .held ∧ ∀ call, hold = .waiting call → .subscribe call channel ∉ s.taken

/-- What is true of a tenure at all times. -/
structure Sound (s : Tenure) : Prop extends Staffed s, Attended s, Placed s where
  kept : s.book.Kept

private theorem Sound.aside (h : s.Sound) {t : Tenure}
    (hsub : t.system.subscribers = s.system.subscribers)
    (hl : t.system.link.listeners = s.system.link.listeners) (htaken : t.taken = s.taken)
    (hserving : t.phase = .serving → s.phase = .serving)
    (hcleared : t.phase.isCleared = true → s.phase.isCleared = true) : t.Placed where
  seated hphase := (h.seated (hserving hphase)).of_same hsub hl fun _ => by
    rw [h.stopped, hserving hphase]
    rfl
  placed := h.placed.of_same hsub hl fun hrun => by cases hrun
  late hphase channel id hon hold hu := by
    rw [htaken]
    exact h.late (hcleared hphase) channel id (hl ▸ hon) hold (hsub ▸ hu)

private theorem Sound.late_meanwhile (h : s.Sound) (hcleared : s.phase.isCleared = true) {a : Act}
    (ha : a.isAgents = false) (channel : Key) (id : ListenerId)
    (hon : id ∈ (s.system.act a).link.listeners.registry.on channel) (hold : Hold)
    (hu : ⟨id, channel, hold⟩ ∈ (s.system.act a).subscribers) :
    hold ≠ .held ∧ ∀ call, hold = .waiting call → .subscribe call channel ∉ s.taken := by
  have horder : s.system.link.listeners.InOrder := h.placed.inOrder
  have hold_on : ∀ {hold' : Hold}, ⟨id, channel, hold'⟩ ∈ s.system.subscribers →
      id ∈ s.system.link.listeners.registry.on channel := by
    intro hold' hv
    rcases System.on_of_touches horder (s.system.touches_act ha) hon with hon | rfl
    · exact hon
    · exact absurd (h.placed.ids_lt _ hv) (Nat.lt_irrefl _)
  rcases System.becomes_of_mem h.placed hu with hv | hbecomes
  · exact h.late hcleared channel id (hold_on hv) hold hv
  · cases hbecomes with
    | registered | failed | leaving => simp
    | waiting _ _ ha' hhanded =>
      refine ⟨by simp, fun call hcall htaken => ?_⟩
      cases hcall
      -- The agent has not taken the command of a call that is only made now.
      obtain ⟨progress, hx⟩ := h.kept.known _ htaken _ rfl
      have hlt := (List.getElem?_eq_some_iff.mp hx).1
      exact Nat.lt_irrefl _ (Nat.lt_of_lt_of_eq hlt h.counts)
    | held _ _ call hv ho =>
      -- Nor is there good news for a command that it has not taken.
      have htaken := (h.late hcleared channel id (hold_on hv) _ hv).2 call rfl
      rcases h.kept.earned_of_mem (h.waits _ hv call rfl) ho with hin | ⟨reason, habandoned⟩
      · exact absurd hin htaken
      · cases List.mem_singleton.mp habandoned

private theorem Sound.placed_meanwhile (h : s.Sound) {a : Act} (ha : a.isAgents = false) :
    (s.meanwhile a).Placed where
  seated hserving := (h.seated hserving).act a
  placed :=
    have hsame := System.act_halted ha
    (h.placed.act a).of_same hsame.1.symm hsame.2.symm fun hrun => by cases hrun
  late hcleared := h.late_meanwhile hcleared ha

private theorem Sound.placed_turn (h : s.Sound) (e : Turn) : (s.turn e).Placed := by
  have hchange := s.turn_change e
  generalize s.turn e = t at hchange
  cases hchange with
  | still => exact h.toPlaced
  | departs a t ha hserving hleft =>
    obtain ⟨hsub, hl⟩ := System.departure_same hleft
    exact {
      seated := fun hphase => by cases hphase
      placed := h.placed.of_same hsub hl fun hrun => by cases hrun
      late := fun hphase => by cases hphase }
  | serves a ha hserving hstays =>
    have hseated := (h.seated hserving).act a
    exact {
      seated := fun _ => hseated
      placed := hseated.halted
      late := fun hphase => by
        rw [show _ = Phase.serving from hserving] at hphase
        cases hphase }
  | others a ha => exact h.placed_meanwhile ha
  | letsIn => exact h.aside rfl (Link.listeners_refill _) rfl id id
  | clears hphase =>
    exact {
      seated := fun hphase => by cases hphase
      placed := h.placed.stops rfl rfl s.system.service
      late := fun _ channel id hon => by cases hon }
  | drops hphase | finishes hphase =>
    exact h.aside rfl rfl rfl (fun he => by cases he) fun _ => hphase ▸ rfl
  | fetches | hears | claims | joins | leaves => exact h.aside rfl rfl rfl id id

theorem Sound.turn (h : s.Sound) (e : Turn) : (s.turn e).Sound where
  toStaffed := h.toStaffed.turn e
  toAttended := h.toAttended.turn h.toStaffed h.placed e
  toPlaced := h.placed_turn e
  kept := h.kept.deal (h.deal_turn h.toAttended e)

theorem opening_kept : opening.book.Kept where
  named i x hx := by cases hx
  handed c hc := by cases hc
  known c hc := by cases hc
  outcomes o ho := by cases ho
  returned i command r hx := by cases hx
  waiting i command hx := by cases hx
  closing i x hx := by cases hx
  dropped hdropped := by cases hdropped
  due _ i := by rintro ⟨k, ⟨⟨r, ho⟩, -⟩ | hx⟩ <;> contradiction
  closed i k r hx := by cases hx
  task _ := rfl

theorem opening_sound : opening.Sound where
  toStaffed := opening_staffed
  waits u hu := by cases hu
  alone u hu := by cases hu
  served call k channel hx := by cases hx
  seated _ := System.opening_seated
  placed := System.opening_seated.halted
  late hcleared := by cases hcleared
  kept := opening_kept

theorem Sound.run (h : s.Sound) (turns : List Turn) : (s.run turns).Sound := by
  induction turns generalizing s with
  | nil => exact h
  | cons e turns ih => exact ih (h.turn e)

/-! ### Listeners that are struck out -/

/-- What the owner of an inbox takes out of it. -/
def reading (id : ListenerId) (e : Turn) (s : Tenure) : List Bytes :=
  match e with
  | .act (.receive i) =>
    if i = id ∧ s.system.canRead id = true then (s.system.link.listeners.inbox id).take 1 else []
  | _ => []

/-- What it takes out over turns. -/
def readings (id : ListenerId) : List Turn → Tenure → List Bytes
  | [], _ => []
  | e :: turns, s => s.reading id e ++ readings id turns (s.turn e)

/-- A listener that was struck out with all others. -/
structure Struck (id : ListenerId) (s : Tenure) : Prop where
  cleared : s.phase.isCleared = true
  lt : id < s.system.link.listeners.next
  off : ∀ channel, id ∉ s.system.link.listeners.registry.on channel

/-- What happens to the listeners once they were struck out, is done by others than the agent. -/
theorem touches_turn (hcleared : s.phase.isCleared = true) (e : Turn) :
    (s.turn e).phase.isCleared = true ∧
      ((∃ a, e = .act a ∧ s.system.Touches a (s.turn e).system.link.listeners) ∨
        (s.turn e).system.link.listeners = s.system.link.listeners ∧
          ∀ i, e ≠ .act (.receive i)) := by
  have hchange := s.turn_change e
  generalize s.turn e = t at hchange
  cases hchange with
  | still _ hact =>
    refine ⟨hcleared, .inr ⟨rfl, ?_⟩⟩
    rintro i rfl
    cases hact _ rfl
  | departs a t ha hserving | serves a ha hserving =>
    rw [hserving] at hcleared
    cases hcleared
  | clears hphase =>
    rw [hphase] at hcleared
    cases hcleared
  | others a ha => exact ⟨hcleared, .inl ⟨a, rfl, s.system.touches_act ha⟩⟩
  | letsIn => exact ⟨hcleared, .inr ⟨Link.listeners_refill _, by simp⟩⟩
  | drops | finishes => exact ⟨rfl, .inr ⟨rfl, by simp⟩⟩
  | fetches | hears | claims | joins | leaves => exact ⟨hcleared, .inr ⟨rfl, by simp⟩⟩

variable {id : ListenerId}

theorem reading_eq_nil {a : Act} (h : ∀ i, s.system.canRead i = true → a ≠ .receive i) :
    s.reading id (.act a) = [] := by
  unfold reading
  split
  · next i he =>
    cases he
    refine if_neg ?_
    rintro ⟨rfl, hread⟩
    exact h i hread rfl
  · rfl

private theorem Struck.touches (h : s.Struck id) {a : Act} {l : Listeners}
    (ht : s.system.Touches a l) (hheld : l.Holds id) :
    s.system.link.listeners.Holds id ∧
      s.reading id (.act a) ++ l.inbox id = s.system.link.listeners.inbox id := by
  cases ht with
  | none _ hread =>
    rw [reading_eq_nil hread]
    exact ⟨hheld, rfl⟩
  | adds channel =>
    have hheld' := (Listeners.holds_add.mp hheld).resolve_right (Nat.ne_of_lt h.lt)
    rw [reading_eq_nil (by simp)]
    exact ⟨hheld', Listeners.inbox_add hheld' channel⟩
  | releases i channel hold hu =>
    obtain ⟨hheld', hne⟩ := Listeners.holds_release.mp hheld
    rw [reading_eq_nil (by simp)]
    exact ⟨hheld', Listeners.inbox_release hne channel⟩
  | takes i hread =>
    refine ⟨Listeners.holds_take.mp hheld, ?_⟩
    rw [Listeners.inbox_take]
    by_cases hi : i = id
    · subst hi
      rw [if_pos rfl, reading, if_pos ⟨rfl, hread⟩]
      cases s.system.link.listeners.inbox i <;> rfl
    · rw [if_neg (Ne.symm hi), reading, if_neg fun hand => hi hand.1]
      rfl

theorem Struck.turn (h : s.Struck id) (hs : s.Sound) (e : Turn) : (s.turn e).Struck id := by
  have horder : s.system.link.listeners.InOrder := hs.placed.inOrder
  obtain ⟨hcleared, ⟨a, rfl, ht⟩ | ⟨hl, -⟩⟩ := touches_turn h.cleared e
  · refine ⟨hcleared, ?_, fun channel hon => ?_⟩
    · exact Nat.lt_of_lt_of_le h.lt (System.next_le_of_touches ht)
    · rcases System.on_of_touches horder ht hon with hon | rfl
      · exact h.off channel hon
      · exact Nat.lt_irrefl _ h.lt
  · exact ⟨hcleared, hl ▸ h.lt, hl ▸ h.off⟩

/-- Nothing comes into an inbox any more. -/
theorem Struck.inbox_turn (h : s.Struck id) (e : Turn)
    (hheld : (s.turn e).system.link.listeners.Holds id) :
    s.system.link.listeners.Holds id ∧
      s.reading id e ++ (s.turn e).system.link.listeners.inbox id =
        s.system.link.listeners.inbox id := by
  obtain ⟨-, ⟨a, rfl, ht⟩ | ⟨hl, hread⟩⟩ := touches_turn h.cleared e
  · exact h.touches ht hheld
  · have hnone : s.reading id e = [] := by
      unfold reading
      split
      · next i => exact absurd rfl (hread i)
      · rfl
    rw [hl] at hheld ⊢
    rw [hnone]
    exact ⟨hheld, rfl⟩

theorem Struck.run (h : s.Struck id) (hs : s.Sound) (turns : List Turn) :
    (s.run turns).Struck id := by
  induction turns generalizing s with
  | nil => exact h
  | cons e turns ih => exact ih (h.turn hs e) (hs.turn e)

theorem Struck.inbox_run (h : s.Struck id) (hs : s.Sound) (turns : List Turn)
    (hheld : (s.run turns).system.link.listeners.Holds id) :
    s.system.link.listeners.Holds id ∧
      readings id turns s ++ (s.run turns).system.link.listeners.inbox id =
        s.system.link.listeners.inbox id := by
  induction turns generalizing s with
  | nil => exact ⟨hheld, rfl⟩
  | cons e turns ih =>
    obtain ⟨hheld', hrest⟩ := ih (h.turn hs e) (hs.turn e) hheld
    obtain ⟨hheld'', hfirst⟩ := h.inbox_turn e hheld'
    refine ⟨hheld'', ?_⟩
    rw [readings, List.append_assoc, run_cons, hrest, hfirst]

/-- Once its owner has read what is left, an inbox is closed. -/
theorem Struck.sight (h : s.Struck id) (hs : s.Sound) :
    s.system.link.listeners.sight id = (s.system.link.listeners.inbox id).sight false := by
  have horder : s.system.link.listeners.InOrder := hs.placed.inOrder
  have hopen : s.system.link.listeners.isOpen id = false := by
    rw [Bool.eq_false_iff]
    intro hopen
    obtain ⟨channel, hon⟩ := (Listeners.isOpen_iff horder).mp hopen
    exact h.off channel hon
  rw [Listeners.sight, hopen]

/-- The listeners are struck out by one turn only. -/
theorem cleared_turn {e : Turn} (h : (s.turn e).phase.isCleared = true) :
    s.phase.isCleared = true ∨ e = .clear ∧ s.phase = .leaving := by
  have hchange := s.turn_change e
  generalize s.turn e = t at hchange h
  cases hchange with
  | departs => cases h
  | clears hphase => exact .inr ⟨rfl, hphase⟩
  | drops hphase | finishes hphase => exact .inl (hphase ▸ rfl)
  | _ => exact .inl h

theorem cleared_run (h : s.phase.isCleared = true) (turns : List Turn) :
    (s.run turns).phase.isCleared = true := by
  induction turns generalizing s with
  | nil => exact h
  | cons e turns ih => exact ih (touches_turn h e).1

theorem exists_clear {turns : List Turn} (h : (opening.run turns).phase.isCleared = true) :
    ∃ before later, turns = before ++ .clear :: later ∧ (opening.run before).phase = .leaving := by
  induction turns using List.reverseRecOn with
  | nil => cases h
  | append_singleton turns e ih =>
    rw [run_append] at h
    rcases cleared_turn h with hearlier | ⟨rfl, hleaving⟩
    · obtain ⟨before, later, rfl, hleaving⟩ := ih hearlier
      exact ⟨before, later ++ [e], by simp, hleaving⟩
    · exact ⟨turns, [], rfl, hleaving⟩

theorem struck_of_clear (h : s.phase = .leaving) (hid : id < s.system.link.listeners.next) :
    (s.turn .clear).Struck id := by
  simp only [turn, if_pos h]
  exact ⟨rfl, hid, fun channel hon => by cases hon⟩

/-! ### Nobody is left waiting -/

/-- Whether a call comes to an outcome: it has returned it, or does so by one more turn. -/
def Yields (call : CallId) (command : Command) (r : Except Failure Unit) (s : Tenure) : Prop :=
  s.calls[call]? = some ⟨command, .returned r⟩ ∨
    s.calls[call]? = some ⟨command, .waiting⟩ ∧
      ∃ e, (s.turn e).calls[call]? = some ⟨command, .returned r⟩

theorem fetch_returns {call k : CallId} {channel : Key} {payload : Bytes} {r : Except Failure Unit}
    (hx : s.calls[call]? = some ⟨.publish k channel payload, .waiting⟩)
    (ho : s.system.link.outcome? call = some r) :
    (s.turn (.fetch call)).calls[call]? = some ⟨.publish k channel payload, .returned r⟩ := by
  simp only [turn, hx, ho, progress, withLink]
  rw [getElem?_moved, if_pos rfl, hx]
  rfl

theorem Sound.resume_returns (h : s.Sound) {channel : Key} {call : CallId} {command : Command}
    {r : Except Failure Unit} (hu : ⟨id, channel, .waiting call⟩ ∈ s.system.subscribers)
    (hx : s.calls[call]? = some ⟨command, .waiting⟩)
    (ho : s.system.link.outcome? call = some r) :
    (s.turn (.act (.resume id))).calls[call]? = some ⟨command, .returned r⟩ := by
  have hfind : s.system.subscriber? id = _ := h.placed.subscriber?_eq hu
  have hsettled : s.system.settled (.resume id) = some (call, .returned r) := by
    simp only [System.settled, hfind, ho, Option.map_some]
  have hturn : (s.turn (.act (.resume id))).calls = moved call (.returned r) s.calls := by
    simp only [Tenure.turn, Act.isAgents, Tenure.meanwhile, hsettled, settle, System.handed]
    exact List.append_nil _
  rw [hturn, getElem?_moved, if_pos rfl, hx]
  rfl

/-- Once the queue is dropped, whoever waits has an outcome. -/
theorem Sound.outcome_of_waiting (h : s.Sound) (hdropped : s.phase.isDropped = true) {call : CallId}
    {command : Command} (hx : s.calls[call]? = some ⟨command, .waiting⟩) :
    ∃ r, s.system.link.outcome? call = some r := by
  rcases h.kept.waiting call command hx with hmem | ⟨r, ho⟩
  · rw [h.kept.dropped hdropped] at hmem
    cases hmem
  · exact Link.exists_outcome? ho

/-- A call whose command the agent has not taken, comes to what is left for it. -/
theorem Sound.yields (h : s.Sound) (hdropped : s.phase.isDropped = true) {call : CallId}
    {command : Command} {progress : Progress} (hx : s.calls[call]? = some ⟨command, progress⟩)
    (htaken : command ∉ s.taken) (hprogress : progress ≠ .givenUp)
    (hcommand : ∀ k, command ≠ .close k) :
    ∃ reason r, (call, r) ∈ command.abandoned reason ∧ s.Yields call command r := by
  have hopen : progress ≠ .answered ∧ progress ≠ .joining := by
    refine ⟨fun he => ?_, fun he => ?_⟩
    · obtain ⟨k, hk⟩ := h.kept.closing call _ hx (.inl he)
      exact hcommand k hk
    · obtain ⟨k, hk⟩ := h.kept.closing call _ hx (.inr he)
      exact hcommand k hk
  cases progress with
  | waiting =>
    obtain ⟨r, ho⟩ := h.outcome_of_waiting hdropped hx
    obtain ⟨reason, hr⟩ := (h.kept.earned_of_mem hx (Link.mem_of_outcome? ho)).resolve_left htaken
    refine ⟨reason, r, hr, .inr ⟨hx, ?_⟩⟩
    cases command with
    | publish k channel payload => exact ⟨_, fetch_returns hx ho⟩
    | subscribe k channel =>
      obtain ⟨id, hu⟩ := h.served call k channel hx
      exact ⟨_, h.resume_returns hu hx ho⟩
    | unsubscribe channel => cases hr
    | close k => exact absurd rfl (hcommand k)
  | returned r =>
    obtain ⟨reason, hr⟩ := (h.kept.returned call command r hx).resolve_left htaken
    exact ⟨reason, r, hr, .inl hx⟩
  | answered => exact absurd rfl hopen.1
  | joining => exact absurd rfl hopen.2
  | givenUp => exact absurd rfl hprogress

private theorem join_returns (hover : s.phase = .finished) {call k : CallId}
    (hx : s.calls[call]? = some ⟨.close k, .joining⟩) :
    (s.turn (.join call)).calls[call]? = some ⟨.close k, .returned (.ok ())⟩ := by
  simp only [turn, hx, hover, progress]
  rw [getElem?_moved, if_pos rfl, hx]
  rfl

private theorem claim_returns (hover : s.phase = .finished) {call k : CallId}
    (hx : s.calls[call]? = some ⟨.close k, .answered⟩) :
    (s.run [.claim call, .join call]).calls[call]? = some ⟨.close k, .returned (.ok ())⟩ := by
  have hclaim : ∀ later, (if s.hasTask then Progress.joining else .returned (.ok ())) = later →
      (s.turn (.claim call)).calls[call]? = some ⟨.close k, later⟩ := by
    rintro later rfl
    simp only [turn, hx, progress]
    rw [getElem?_moved, if_pos rfl, hx]
    rfl
  have hover' : (s.turn (.claim call)).phase = .finished := by
    simp only [turn, hx]
    exact hover
  rw [run_cons, run_cons, run_nil]
  cases htask : s.hasTask with
  | true => exact join_returns hover' (hclaim .joining (by rw [htask]; rfl))
  | false =>
    have hdone := hclaim (.returned (.ok ())) (by rw [htask]; rfl)
    have hsame : (s.turn (.claim call)).turn (.join call) = s.turn (.claim call) := by
      generalize s.turn (.claim call) = t at hdone
      simp only [turn, hdone]
    rw [hsame, hdone]

/-- Once the agent's task is over, no call to close waits any more. -/
theorem Sound.close_returns (h : s.Sound) (hover : s.phase = .finished) {call k : CallId}
    {progress : Progress} (hx : s.calls[call]? = some ⟨.close k, progress⟩)
    (hprogress : progress ≠ .givenUp) :
    (s.run [.fetch call, .claim call, .join call]).calls[call]? =
      some ⟨.close k, .returned (.ok ())⟩ := by
  rw [run_cons]
  cases progress with
  | waiting =>
    obtain ⟨r, ho⟩ := h.outcome_of_waiting (hover ▸ rfl) hx
    refine claim_returns ?_ ?_
    · simp only [Tenure.turn, hx, ho]
      exact hover
    · simp only [Tenure.turn, hx, ho, Tenure.progress, withLink]
      rw [getElem?_moved, if_pos rfl, hx]
      rfl
  | answered =>
    have hsame : s.turn (.fetch call) = s := by simp only [Tenure.turn, hx]
    rw [hsame]
    exact claim_returns hover hx
  | joining =>
    have hsame : s.turn (.fetch call) = s := by simp only [Tenure.turn, hx]
    have hsame' : s.turn (.claim call) = s := by simp only [Tenure.turn, hx]
    rw [hsame, run_cons, hsame']
    exact join_returns hover hx
  | returned r =>
    have hsame : s.turn (.fetch call) = s := by simp only [Tenure.turn, hx]
    have hsame' : s.turn (.claim call) = s := by simp only [Tenure.turn, hx]
    have hsame'' : s.turn (.join call) = s := by simp only [Tenure.turn, hx]
    rw [hsame, run_cons, hsame', run_cons, hsame'', run_nil, hx, (h.kept.closed call k r hx).1]
  | givenUp => exact absurd rfl hprogress

/-- Once the listeners are struck out, whoever is registered is in a call that has not returned. -/
theorem Sound.pending_of_on (h : s.Sound) (hcleared : s.phase.isCleared = true) {channel : Key}
    (hon : id ∈ s.system.link.listeners.registry.on channel) :
    ∃ hold, ⟨id, channel, hold⟩ ∈ s.system.subscribers ∧ hold.isPending = true := by
  obtain ⟨hold, hu, hentered⟩ := h.placed.owned channel id hon
  obtain ⟨hheld, -⟩ := h.late hcleared channel id hon hold hu
  refine ⟨hold, hu, ?_⟩
  cases hold with
  | registered | waiting | failed => rfl
  | held => exact absurd rfl hheld
  | leaving last => cases hentered

/-- If nobody who came after the listeners were struck out is in such a call, nobody is
registered. -/
theorem Sound.registry_run (h : s.Sound) (hleaving : s.phase = .leaving) (later : List Turn)
    (hnone : ∀ u ∈ ((s.turn .clear).run later).system.subscribers,
      s.system.link.listeners.next ≤ u.id → u.hold.isPending = false) :
    ((s.turn .clear).run later).system.link.listeners.registry = [] := by
  have hcleared : (s.turn .clear).phase.isCleared = true := by
    simp only [Tenure.turn, if_pos hleaving]
    rfl
  have hend : ((s.turn .clear).run later).Sound := (h.turn .clear).run later
  have horder : ((s.turn .clear).run later).system.link.listeners.InOrder := hend.placed.inOrder
  refine List.eq_nil_iff_forall_not_mem.mpr fun entry hentry => ?_
  obtain ⟨id, hid⟩ := List.exists_mem_of_ne_nil _ (horder.registry.ne_nil entry hentry)
  rw [← Registry.on_eq_of_mem horder.registry hentry] at hid
  obtain ⟨hold, hu, hpending⟩ := hend.pending_of_on (cleared_run hcleared later) hid
  have hlate : s.system.link.listeners.next ≤ id := by
    by_contra hlt
    have hstruck := struck_of_clear hleaving (Nat.not_le.mp hlt)
    exact (hstruck.run (h.turn .clear) later).off entry.1 hid
  rw [hnone _ hu hlate] at hpending
  cases hpending

theorem phase_run_stop (h : s.phase ≠ .serving) :
    (s.run [.clear, .drop, .finish]).phase = .finished := by
  cases hphase : s.phase with
  | serving => exact absurd hphase h
  | leaving | cleared | dropped | finished => simp [turn, withLink, hphase]

/-- What a run comes to once the agent has left its loop, where `s` is the tenure at its end. -/
structure LeavesNobody (turns : List Turn) (s : Tenure) : Prop where
  publishes : s.phase.isDropped = true →
    ∀ (call k : CallId) (channel : Key) (payload : Bytes) (progress : Progress),
    s.calls[call]? = some ⟨.publish k channel payload, progress⟩ →
    .publish k channel payload ∉ s.taken → progress ≠ .givenUp →
      ∃ reason, s.Yields call (.publish k channel payload) (.error (.publish reason))
  subscribes : s.phase.isDropped = true →
    ∀ (call k : CallId) (channel : Key) (progress : Progress),
    s.calls[call]? = some ⟨.subscribe k channel, progress⟩ →
    .subscribe k channel ∉ s.taken → progress ≠ .givenUp →
      ∃ reason, s.Yields call (.subscribe k channel) (.error (.transport reason))
  /-- Nor does any other call wait in vain. -/
  outcomes : s.phase.isDropped = true → ∀ (call : CallId) (command : Command),
    s.calls[call]? = some ⟨command, .waiting⟩ → ∃ r, s.system.link.outcome? call = some r
  /-- Whoever was registered when the listeners were struck out, reads what was in the inbox then,
  and then finds it closed. -/
  listeners : ∀ before later, turns = before ++ .clear :: later →
    (opening.run before).phase = .leaving →
    ∀ id, id < (opening.run before).system.link.listeners.next →
      s.system.link.listeners.Holds id →
        readings id later ((opening.run before).turn .clear) ++ s.system.link.listeners.inbox id =
          (opening.run before).system.link.listeners.inbox id ∧
        s.system.link.listeners.sight id = (s.system.link.listeners.inbox id).sight false
  /-- Nobody is registered, unless in a call to subscribe that was made after that. -/
  registry : ∀ before later, turns = before ++ .clear :: later →
    (opening.run before).phase = .leaving →
    (∀ u ∈ s.system.subscribers,
      (opening.run before).system.link.listeners.next ≤ u.id → u.hold.isPending = false) →
        s.system.link.listeners.registry = []
  /-- No call to close returns before the listeners were struck out and the queue was dropped. -/
  closes : ∀ (call k : CallId) (r : Except Failure Unit),
    s.calls[call]? = some ⟨.close k, .returned r⟩ → r = .ok () ∧ s.phase.isDropped = true ∧
      ∃ before later, turns = before ++ .clear :: later ∧ (opening.run before).phase = .leaving
  /-- The agent goes on to its end, and then every call to close returns. -/
  ends : s.phase ≠ .serving → (s.run [.clear, .drop, .finish]).phase = .finished
  closers : s.phase = .finished → ∀ (call k : CallId) (progress : Progress),
    s.calls[call]? = some ⟨.close k, progress⟩ →
    progress ≠ .givenUp → (s.run [.fetch call, .claim call, .join call]).calls[call]? =
      some ⟨.close k, .returned (.ok ())⟩

/-- However callers, the agent and the broker interleave, and whatever makes the agent leave: nobody
is left waiting. -/
theorem shutdown_leaves_nobody_waiting (turns : List Turn) :
    LeavesNobody turns (opening.run turns) := by
  have hs : (opening.run turns).Sound := opening_sound.run turns
  refine ⟨?_, ?_, ?_, ?_, ?_, ?_, ?_, ?_⟩
  · intro hdropped call k channel payload progress hx htaken hprogress
    obtain ⟨reason, r, hr, hyields⟩ := hs.yields hdropped hx htaken hprogress (by simp)
    cases List.mem_singleton.mp hr
    exact ⟨reason, hyields⟩
  · intro hdropped call k channel progress hx htaken hprogress
    obtain ⟨reason, r, hr, hyields⟩ := hs.yields hdropped hx htaken hprogress (by simp)
    cases List.mem_singleton.mp hr
    exact ⟨reason, hyields⟩
  · exact fun hdropped call command hx => hs.outcome_of_waiting hdropped hx
  · rintro before later rfl hleaving id hid hheld
    have hearlier : (opening.run before).Sound := opening_sound.run before
    have hstruck := struck_of_clear hleaving hid
    rw [run_append, run_cons] at hheld ⊢
    obtain ⟨-, hinbox⟩ := hstruck.inbox_run (hearlier.turn .clear) later hheld
    refine ⟨hinbox.trans ?_, (hstruck.run (hearlier.turn .clear) later).sight ?_⟩
    · simp only [turn, if_pos hleaving]
      rfl
    · exact (hearlier.turn .clear).run later
  · rintro before later rfl hleaving hnone
    rw [run_append, run_cons] at hnone ⊢
    exact (opening_sound.run before).registry_run hleaving later hnone
  · intro call k r hx
    obtain ⟨hr, hdropped⟩ := hs.kept.closed call k r hx
    have hcleared : (opening.run turns).phase.isCleared = true := by
      revert hdropped
      change (opening.run turns).phase.isDropped = true → _
      cases (opening.run turns).phase <;> simp [Phase.isDropped, Phase.isCleared]
    exact ⟨hr, hdropped, exists_clear hcleared⟩
  · intro hphase
    exact phase_run_stop hphase
  · exact fun hover call k progress hx hprogress => hs.close_returns hover hx hprogress

/-- The agent takes a command to close while another one, a message and a subscription are
queued. -/
def closingTime : List Turn :=
  [.act (.register "c"), .act (.request 0), .act .draw, .act .send, .act (.serve (.ok 1) true),
    .act .conclude, .act (.resume 0), .act (.speak ⟨"c", [1]⟩), .act .deliver, .act .close,
    .act (.publish "c" [7]), .act (.register "c"), .act (.request 1), .act .close, .act .draw,
    .fetch 1, .claim 1]

/-- Somebody else subscribes, whose listener is registered after the others were struck out. -/
def aftermath : List Turn :=
  [.act (.register "d"), .act (.request 2), .drop, .act (.publish "d" [8]), .finish,
    .fetch 4, .claim 4, .join 1, .act (.resume 1), .act (.strike 1), .act (.retire 1),
    .act (.resume 2), .act (.strike 2), .act (.retire 2), .act (.receive 0)]

theorem closing_time_leaves_nobody :
    let s := opening.run (closingTime ++ .clear :: aftermath)
    s.phase = .finished ∧ s.system.link.listeners.registry = [] ∧
      [[1]] ++ s.system.link.listeners.inbox 0 = [[1]] ∧ s.system.link.listeners.sight 0 = .closed ∧
      (∃ reason, s.Yields 2 (.publish 2 "c" [7]) (.error (.publish reason))) ∧
      (∃ reason, s.Yields 6 (.publish 6 "d" [8]) (.error (.publish reason))) ∧
      (∃ reason, s.Yields 3 (.subscribe 3 "c") (.error (.transport reason))) ∧
      (∃ reason, s.Yields 5 (.subscribe 5 "d") (.error (.transport reason))) ∧
      s.calls[1]?.map (·.progress) = some (.returned (.ok ())) ∧
      s.calls[4]?.map (·.progress) = some (.returned (.ok ())) := by
  intro s
  have h := shutdown_leaves_nobody_waiting (closingTime ++ .clear :: aftermath)
  obtain ⟨hread, hsight⟩ := h.listeners closingTime aftermath rfl rfl 0 (by decide)
    (List.mem_singleton_self 0)
  have hregistry := h.registry closingTime aftermath rfl rfl (by decide)
  refine ⟨rfl, hregistry, hread, hsight, ?_, ?_, ?_, ?_, rfl, rfl⟩
  · exact h.publishes rfl 2 2 "c" [7] .waiting rfl (by decide) (by simp)
  · exact h.publishes rfl 6 6 "d" [8] .waiting rfl (by decide) (by simp)
  · exact h.subscribes rfl 3 3 "c" _ rfl (by decide) (by simp)
  · exact h.subscribes rfl 5 5 "d" _ rfl (by decide) (by simp)

end Tenure

end Roaming.Redis
