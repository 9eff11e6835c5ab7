import Mathlib.Data.List.Sort
import Roaming.Proofs.Inboxes
import Roaming.Proofs.Turns

/-!
# The ledger of the hub

Which listeners the hub has can be told from what happens alone (`Scene.account`): an entry is
written down when an exchange over the hub begins or somebody listens, it collects what is
published on its key, and it is struck out when its owner has gone, or when the hub is closed. The
hub agrees with this ledger after every run. Hence an exchange that has gone leaves no entry, and
no other entry with it.
-/

set_option autoImplicit false
set_option relaxedAutoImplicit false

namespace Roaming.Simulation

open Roaming.Text (Bytes)

/-- Who takes a payload out of an inbox by an act. -/
def Act.reader? : Act → Option Owner
  | .receive n => some (.handle n)
  | _ => none

/-- An entry after an act: its owner has read a payload, or is offered what is
published on the key. -/
def Entry.through (a : Act) (s : Scene) (e : Entry) : Entry :=
  { e with
    unread :=
      if a.reader? = some e.owner then e.unread.tail
      else e.unread.offerAll (payloadsOn e.key (s.publications a)) }

theorem Task.of_hubKey? {t : Task} {key : Key} (h : t.hubKey? = some key) :
    t.stage = .fresh ∧ ∃ e route name, t.job.errand? = some e ∧ e.caller.answers = some route ∧
      route.medium = .hub name ∧ key = e.key := by
  unfold hubKey? at h
  split at h
  · rename_i e hst he
    split at h
    · rename_i name timeout policy hroute
      cases h
      exact ⟨hst, e, _, name, he, hroute, rfl, rfl⟩
    · cases h
  · cases h

/-- An entry after acts. -/
def Entry.throughAll : List Act → Scene → Entry → Entry
  | [], _, e => e
  | a :: acts, s, e => throughAll acts (s.act a) (e.through a s)

namespace Scene

/-- Whether an exchange has neither ended nor been cleared away, or a handle was not released. -/
def isThere (s : Scene) : Owner → Bool
  | .task id => s.world.tasks.any (·.id = id)
  | .handle n => s.handles[n]?.join.isSome

/-- Whether an entry of an owner stays: closing strikes out all of them, and otherwise it stays as
long as its owner does. -/
def keeps (a : Act) (s : Scene) (o : Owner) : Bool :=
  match a with
  | .close => false
  | _ => (s.act a).isThere o

/-- The ledger after an act. -/
def account (a : Act) (s : Scene) (entries : List Entry) : List Entry :=
  (entries.filter fun e => s.keeps a e.owner).map (·.through a s) ++ (s.newcomer? a).toList

/-- The ledger after acts. -/
def ledger : List Act → Scene → List Entry → List Entry
  | [], _, entries => entries
  | a :: acts, s, entries => ledger acts (s.act a) (s.account a entries)

/-- Whether the hub has these entries and no others, in this order, with what is unread of each. -/
structure Lists (s : Scene) (entries : List Entry) : Prop where
  on : ∀ key, s.world.hub.registry.on key = (entries.filter (·.key = key)).map (·.id)
  inbox : ∀ e ∈ entries, s.world.hub.inbox e.id = e.unread
  sorted : (entries.map (·.id)).Pairwise (· < ·)
  held : ∀ e ∈ entries, s.Has e.owner (.hub e.key e.id)

/-- How the hub stands after acts: it agrees with the ledger, where nobody has an entry who has
ended, was dropped or was released, and everybody else has his. -/
structure Accounts (s : Scene) (acts : List Act) : Prop where
  lists : (s.after acts).Lists (s.ledger acts [])
  total : (s.after acts).world.hub.total = (s.ledger acts []).length
  ended : ∀ id, (s.after acts).world.outcomes id ≠ [] →
    ∀ e ∈ s.ledger acts [], e.owner ≠ .task id
  /-- A task that was dropped goes by its next turn, and nothing of it comes back. -/
  dropped : ∀ t ∈ (s.after acts).world.tasks, (t.isDropped && !t.isBusy) = true →
    ∀ more, ∀ e ∈ s.ledger (acts ++ .move (.task t.id) :: more) [], e.owner ≠ .task t.id
  kept : ∀ e ∈ s.ledger acts [], ∀ more, .close ∉ more →
    (s.after (acts ++ more)).isThere e.owner = true →
    e.throughAll more (s.after acts) ∈ s.ledger (acts ++ more) []
  /-- The hub is empty when all exchanges have gone and no handle has a listener of it. -/
  deserted : (∀ t ∈ (s.after acts).world.tasks, t.job.errand? = none) →
    (∀ n key id, ¬ (s.after acts).Has (.handle n) (.hub key id)) →
    (s.after acts).world.hub.total = 0

variable {s : Scene}

theorem ledger_append (acts acts' : List Act) (entries : List Entry) :
    s.ledger (acts ++ acts') entries = (s.after acts).ledger acts' (s.ledger acts entries) := by
  induction acts generalizing s entries with
  | nil => rfl
  | cons a acts ih => exact ih (s.account a entries)

/-! ### Who is there -/

theorem isThere_of_has {o : Owner} {sub : Subscription} (h : s.Has o sub) : s.isThere o = true := by
  cases o with
  | task id =>
    obtain ⟨t, ht, hid, -⟩ := h
    exact List.any_eq_true.mpr ⟨t, ht, decide_eq_true hid⟩
  | handle n =>
    have hn : s.handles[n]? = some (some sub) := h
    simp only [isThere, hn, Option.join_some, Option.isSome_some]

theorem not_isThere {id : WorkId} (h : ∀ t ∈ s.world.tasks, t.id ≠ id) :
    s.isThere (.task id) = false := by
  refine List.any_eq_false.mpr fun t ht => ?_
  simpa using h t ht

/-- A handle stays what it is, unless it is released. -/
theorem handle_act {n : Nat} (hlt : n < s.handles.length) (a : Act) :
    (s.act a).handles[n]? = s.handles[n]? ∨
      ∃ sub, s.handles[n]? = some (some sub) ∧ (s.act a).handles[n]? = some none ∧
        (s.act a).world = s.world.release sub := by
  cases a with
  | listen place key =>
    left
    cases place with
    | none => exact List.getElem?_append_left hlt
    | some i =>
      simp only [act]
      split
      · rfl
      · exact List.getElem?_append_left hlt
  | receive m =>
    left
    simp only [act]
    split <;> rfl
  | release m =>
    simp only [act]
    split
    · rename_i sub hm
      by_cases hmn : m = n
      · subst hmn
        exact .inr ⟨sub, hm, List.getElem?_set_self hlt, rfl⟩
      · exact .inl (List.getElem?_set_ne hmn)
    · exact .inl rfl
  | _ => exact .inl rfl

/-- Who has a listener on the hub keeps it, or goes; the hub then has no such listener. -/
theorem Sound.keeps_or_goes (h : s.Sound) {o : Owner} {key : Key} {id : ListenerId}
    (ho : s.Has o (.hub key id)) (a : Act) : (s.act a).Has o (.hub key id) ∨
      (s.act a).isThere o = false ∧ ¬ (s.act a).world.hub.Holds id := by
  have hreleased : ∀ l : Listeners, ¬ (l.release key id).Holds id :=
    fun _ hid => (Listeners.holds_release.mp hid).2 rfl
  cases o with
  | task x =>
    obtain ⟨t, ht, rfl, hsub⟩ := ho
    cases h.leaving ht a with
    | stays t' W hfate hW ht' hout => exact .inl ⟨t', ht', hfate.id_eq, hfate.subscription_eq hsub⟩
    | leaves pubs out ha hd hl hgone hout hhub =>
      right
      rw [World.hub_left, hsub] at hhub
      rw [hhub]
      exact ⟨not_isThere hgone, hreleased _⟩
    | cleared ha hd hgone hout hhub =>
      right
      rw [World.hub_left, hsub] at hhub
      rw [hhub]
      exact ⟨not_isThere hgone, hreleased _⟩
  | handle n =>
    have hsub : s.handles[n]? = some (some (.hub key id)) := ho
    have hlt : n < s.handles.length := (List.getElem?_eq_some_iff.mp hsub).1
    rcases handle_act hlt a with hsame | ⟨sub, hsub', hn, hW⟩
    · exact .inl (hsame.trans hsub)
    · right
      rw [hsub] at hsub'
      cases hsub'
      have hhub : (s.act a).world.hub = s.world.hub.release key id := by
        rw [hW, (World.alike_release (.hub key id) s.world).hub]
        rfl
      rw [hhub]
      refine ⟨?_, hreleased _⟩
      simp only [isThere, hn, Option.join_some, Option.isSome_none]

/-! ### Who comes -/

/-- A new entry is that of the next listener, and its owner has it. -/
theorem Sound.enters (h : s.Sound) {a : Act} {e : Entry} (hnew : s.newcomer? a = some e) :
    (s.act a).Has e.owner (.hub e.key e.id) ∧ (s.act a).world.hub = s.world.hub.add e.key ∧
      e.id = s.world.hub.next ∧ e.unread = [] := by
  cases a with
  | listen place key =>
    cases place with
    | some i => cases hnew
    | none =>
      cases hnew
      refine ⟨?_, rfl, rfl, rfl⟩
      exact List.getElem?_concat_length
  | move r =>
    cases r with
    | post id => cases hnew
    | agent i => cases hnew
    | task id =>
      cases hfind : s.world.task? id with
      | none => simp only [newcomer?, hfind] at hnew; cases hnew
      | some t =>
        have ht : t ∈ s.world.tasks := List.mem_of_find?_eq_some hfind
        have hid : t.id = id := by simpa using List.find?_some hfind
        simp only [newcomer?, hfind] at hnew
        split at hnew
        · cases hnew
        · rename_i hd
          obtain ⟨key, hkey, rfl⟩ := Option.map_eq_some_iff.mp hnew
          obtain ⟨hst, e, route, name, he, hroute, hmedium, rfl⟩ := Task.of_hubKey? hkey
          obtain ⟨ht', hhub⟩ := h.registers ht hst he hroute hmedium (by simpa using hd)
          subst hid
          exact ⟨⟨_, ht', rfl, rfl⟩, hhub, rfl, rfl⟩
  | _ => cases hnew

/-- Who is registered after an act was so before, or has just come. -/
theorem Seated.on_of_act (h : s.Seated) {a : Act} {key : Key} {id : ListenerId}
    (hon : id ∈ (s.act a).world.hub.registry.on key) :
    (a ≠ .close ∧ id ∈ s.world.hub.registry.on key) ∨
      ∃ e, s.newcomer? a = some e ∧ e.key = key ∧ e.id = id := by
  by_cases ha : a = .close
  · subst ha
    rw [Scene.act, (World.leads_closeHub s.world).alike.hub] at hon
    cases hon
  · cases h.hubChange a with
    | offers hW =>
      rw [hW, Listeners.registry_offerAll] at hon
      exact .inl ⟨ha, hon⟩
    | adds q k hnew hnil hW =>
      rw [hW, Listeners.add, Registry.on_enroll] at hon
      split at hon
      · rename_i hk
        rcases List.mem_append.mp hon with hon | hon
        · exact .inl ⟨ha, hon⟩
        · exact .inr ⟨_, hnew, hk.symm, (List.mem_singleton.mp hon).symm⟩
      · exact .inl ⟨ha, hon⟩
    | releases o k i hheld hgone hnil hW =>
      rw [hW, Listeners.on_release h.hub] at hon
      split at hon
      · exact .inl ⟨ha, (List.mem_filter.mp hon).1⟩
      · exact .inl ⟨ha, hon⟩
    | takes n k i hn hmem hnil hW =>
      rw [hW] at hon
      exact .inl ⟨ha, hon⟩
    | closes hclose hnil hW => exact absurd hclose ha

/-! ### One act -/

theorem keeps_iff {a : Act} {o : Owner} :
    s.keeps a o = true ↔ a ≠ .close ∧ (s.act a).isThere o = true := by
  cases a <;> simp [keeps]

theorem mem_account {a : Act} {entries : List Entry} {e' : Entry} :
    e' ∈ s.account a entries ↔
      (∃ e ∈ entries, s.keeps a e.owner = true ∧ e.through a s = e') ∨ s.newcomer? a = some e' := by
  simp only [account, List.mem_append, List.mem_map, List.mem_filter, Option.mem_toList, and_assoc]

/-- An entry that stays is still on its key, and what is unread is what the ledger says. -/
private theorem Lists.stays (h : s.Sound) {entries : List Entry} (hl : s.Lists entries) {e : Entry}
    (he : e ∈ entries) {a : Act} (hkeeps : s.keeps a e.owner = true) :
    (s.act a).Has e.owner (.hub e.key e.id) ∧ e.id ∈ (s.act a).world.hub.registry.on e.key ∧
      (s.act a).world.hub.inbox e.id = (e.through a s).unread := by
  obtain ⟨ha, hthere⟩ := keeps_iff.mp hkeeps
  have ho : s.Has e.owner (.hub e.key e.id) := hl.held e he
  have hon : e.id ∈ s.world.hub.registry.on e.key := by
    rw [hl.on]
    exact List.mem_map.mpr ⟨e, List.mem_filter.mpr ⟨he, decide_eq_true rfl⟩, rfl⟩
  have ho' : (s.act a).Has e.owner (.hub e.key e.id) := by
    rcases h.keeps_or_goes ho a with ho' | ⟨hgone, -⟩
    · exact ho'
    · rw [hthere] at hgone
      cases hgone
  refine ⟨ho', h.seated.on_act ho ho' ha hon, ?_⟩
  by_cases hread : a.reader? = some e.owner
  · cases a with
    | receive n =>
      rw [Act.reader?, Option.some.injEq] at hread
      rw [← hread] at ho
      have hn : s.handles[n]? = some (some (.hub e.key e.id)) := ho
      have hhub : (s.act (.receive n)).world.hub = s.world.hub.take e.id := by
        simp only [act, hn]
        rfl
      rw [hhub, Listeners.inbox_take, if_pos rfl, hl.inbox e he, Entry.through, if_pos]
      rw [Act.reader?, hread]
    | _ => cases hread
  · have hother : ∀ n, a = .receive n → e.owner ≠ .handle n := by
      rintro n rfl ho
      exact hread (congrArg some ho.symm)
    rw [h.seated.inbox_act ho ho' hother, if_pos hon, hl.inbox e he, Entry.through, if_neg hread]

/-- The hub agrees with the ledger after an act if it did before. -/
theorem Sound.lists_act (h : s.Sound) {entries : List Entry} (hl : s.Lists entries) (a : Act) :
    (s.act a).Lists (s.account a entries) := by
  have hseated : (s.act a).Seated := h.seated.act a
  have hlt : ∀ e ∈ entries, e.id < s.world.hub.next := by
    intro e he
    obtain ⟨l, hl', hid, hlt⟩ := h.seated.seats e.owner _ (none, e.id) (hl.held e he) rfl
    cases hl'
    exact hlt
  have hsorted : ((s.account a entries).map (·.id)).Pairwise (· < ·) := by
    rw [account, List.map_append]
    refine List.pairwise_append.mpr ⟨?_, ?_, ?_⟩
    · rw [List.map_map]
      exact hl.sorted.sublist (List.filter_sublist.map _)
    · cases s.newcomer? a <;> simp
    · intro i hi j hj
      obtain ⟨e', he', rfl⟩ := List.mem_map.mp hj
      rw [(h.enters (Option.mem_toList.mp he')).2.2.1]
      rw [List.map_map] at hi
      obtain ⟨e, he, rfl⟩ := List.mem_map.mp hi
      exact hlt e (List.mem_filter.mp he).1
  have hentry : ∀ e ∈ s.account a entries, (s.act a).Has e.owner (.hub e.key e.id) ∧
      e.id ∈ (s.act a).world.hub.registry.on e.key ∧
      (s.act a).world.hub.inbox e.id = e.unread := by
    intro e he
    rcases mem_account.mp he with ⟨d, hd, hkeeps, rfl⟩ | hnew
    · exact hl.stays h hd hkeeps
    · obtain ⟨ho, hhub, hid, hnil⟩ := h.enters hnew
      refine ⟨ho, ?_, ?_⟩
      · rw [hhub, hid]
        exact Listeners.next_on_add _ _
      · rw [hhub, hid, hnil]
        exact Listeners.inbox_add_next h.seated.hub.not_holds_next e.key
  refine ⟨fun key => ?_, fun e he => (hentry e he).2.2, hsorted, fun e he => (hentry e he).1⟩
  have hfiltered : (((s.account a entries).filter (·.key = key)).map (·.id)).Pairwise (· < ·) :=
    hsorted.sublist (List.filter_sublist.map _)
  refine (hseated.hub.on_sorted key).eq_of_mem_iff hfiltered fun id =>
    ⟨fun hon => ?_, fun hid => ?_⟩
  · rcases h.seated.on_of_act hon with ⟨ha, hon'⟩ | ⟨e, hnew, hkey, hid⟩
    · rw [hl.on] at hon'
      obtain ⟨e, he, rfl⟩ := List.mem_map.mp hon'
      obtain ⟨he, hkey⟩ := List.mem_filter.mp he
      have hthere : (s.act a).isThere e.owner = true := by
        rcases h.keeps_or_goes (hl.held e he) a with ho' | ⟨-, hgone⟩
        · exact isThere_of_has ho'
        · exact absurd (hseated.hub.holds_of_on key _ hon) hgone
      refine List.mem_map.mpr ⟨e.through a s, List.mem_filter.mpr ⟨?_, hkey⟩, rfl⟩
      exact mem_account.mpr (.inl ⟨e, he, keeps_iff.mpr ⟨ha, hthere⟩, rfl⟩)
    · refine List.mem_map.mpr ⟨e, List.mem_filter.mpr ⟨?_, decide_eq_true hkey⟩, hid⟩
      exact mem_account.mpr (.inr hnew)
  · obtain ⟨e, he, rfl⟩ := List.mem_map.mp hid
    obtain ⟨he, hkey⟩ := List.mem_filter.mp he
    rw [← of_decide_eq_true hkey]
    exact (hentry e he).2.1

/-! ### All acts -/

theorem Sound.lists_after (h : s.Sound) {entries : List Entry} (hl : s.Lists entries)
    (acts : List Act) : (s.after acts).Lists (s.ledger acts entries) := by
  induction acts generalizing s entries with
  | nil => exact hl
  | cons a acts ih => exact ih (h.act a) (h.lists_act hl a)

theorem IsOpening.lists (hs : s.IsOpening) : s.Lists [] where
  on key := by
    rw [hs.registry]
    rfl
  inbox e he := by cases he
  sorted := List.Pairwise.nil
  held e he := by cases he

/-- Whether somebody has come who could hold a listener. -/
private def Knows (s : Scene) : Owner → Prop
  | .task id => id < s.world.nextId
  | .handle n => n < s.handles.length

private theorem Sound.knows_act (h : s.Sound) {o : Owner} (hknown : s.Knows o) (a : Act) :
    (s.act a).Knows o := by
  cases o with
  | task id => exact Nat.lt_of_lt_of_le hknown (h.nextId_act a)
  | handle n =>
    have hlt : n < s.handles.length := hknown
    rcases handle_act hlt a with hsame | ⟨sub, hsub, hn, -⟩
    · exact (List.getElem?_eq_some_iff.mp (hsame.trans (List.getElem?_eq_getElem hlt))).1
    · exact (List.getElem?_eq_some_iff.mp hn).1

/-- Who has gone does not come back. -/
private theorem Sound.not_isThere_act (h : s.Sound) {o : Owner} (hknown : s.Knows o)
    (hgone : s.isThere o = false) (a : Act) : (s.act a).isThere o = false := by
  cases o with
  | task id =>
    have hnone : ∀ t ∈ s.world.tasks, t.id ≠ id := by
      intro t ht
      simpa using List.any_eq_false.mp hgone t ht
    exact not_isThere (h.gone_act hknown hnone a).2.1
  | handle n =>
    have hlt : n < s.handles.length := hknown
    rcases handle_act hlt a with hsame | ⟨sub, hsub, hn, -⟩
    · rw [isThere, hsame]
      exact hgone
    · simp only [isThere, hn, Option.join_some, Option.isSome_none]

private theorem Sound.not_isThere_after (h : s.Sound) {o : Owner} (hknown : s.Knows o)
    (hgone : s.isThere o = false) (acts : List Act) : (s.after acts).isThere o = false := by
  induction acts generalizing s with
  | nil => exact hgone
  | cons a acts ih =>
    exact ih (h.act a) (h.knows_act hknown a) (h.not_isThere_act hknown hgone a)

private theorem Sound.knows (h : s.Sound) {o : Owner} {sub : Subscription} (ho : s.Has o sub) :
    s.Knows o := by
  cases o with
  | task id =>
    obtain ⟨t, ht, rfl, -⟩ := ho
    exact h.seated.ids_lt t ht
  | handle n => exact (List.getElem?_eq_some_iff.mp ho).1

/-- An entry stays in the ledger as long as its owner does, unless the hub is closed. -/
private theorem Lists.kept (h : s.Sound) {entries : List Entry} (hl : s.Lists entries) {e : Entry}
    (he : e ∈ entries) {acts : List Act} (hclose : .close ∉ acts)
    (hthere : (s.after acts).isThere e.owner = true) :
    e.throughAll acts s ∈ s.ledger acts entries := by
  induction acts generalizing s entries e with
  | nil => exact he
  | cons a acts ih =>
    have ha : a ≠ .close := fun ha => hclose (ha ▸ List.mem_cons_self)
    have hstays : (s.act a).isThere e.owner = true := by
      by_contra hgone
      have ho : s.Has e.owner (.hub e.key e.id) := hl.held e he
      have hknown : (s.act a).Knows e.owner := (h.knows_act (h.knows ho) a)
      have hnever := (h.act a).not_isThere_after hknown (by simpa using hgone) acts
      rw [after_cons, hnever] at hthere
      cases hthere
    refine ih (h.act a) (h.lists_act hl a) ?_
      (fun hmem => hclose (List.mem_cons_of_mem _ hmem)) hthere
    exact mem_account.mpr (.inl ⟨e, he, keeps_iff.mpr ⟨ha, hstays⟩, rfl⟩)

/-- There are as many listeners as entries. -/
theorem Lists.total (h : s.Seated) {entries : List Entry} (hl : s.Lists entries) :
    s.world.hub.total = entries.length := by
  have hids : ∀ id, id ∈ s.world.hub.registry.ids ↔ id ∈ entries.map (·.id) := by
    intro id
    rw [Registry.mem_ids h.hub.registry]
    constructor
    · rintro ⟨key, hon⟩
      rw [hl.on] at hon
      obtain ⟨e, he, rfl⟩ := List.mem_map.mp hon
      exact List.mem_map_of_mem (List.mem_filter.mp he).1
    · intro hid
      obtain ⟨e, he, rfl⟩ := List.mem_map.mp hid
      refine ⟨e.key, ?_⟩
      rw [hl.on]
      exact List.mem_map.mpr ⟨e, List.mem_filter.mpr ⟨he, decide_eq_true rfl⟩, rfl⟩
  have hnodup : (entries.map (·.id)).Nodup := hl.sorted.imp Nat.ne_of_lt
  have hperm := (List.perm_ext_iff_of_nodup h.hub.ids_nodup hnodup).mpr hids
  rw [Listeners.total, hperm.length_eq, List.length_map]

/-- A task that has a listener on the hub exchanges something. -/
theorem Sound.errand_of_hub (h : s.Sound) {t : Task} (ht : t ∈ s.world.tasks) {key : Key}
    {id : ListenerId} (hsub : t.subscription? = some (.hub key id)) : t.job.errand? ≠ none := by
  have hplace := h.tidy.inPlace t ht
  intro hnone
  rcases Task.stage_of_hub hsub with ⟨route, hst⟩ | ⟨v, hst, -⟩
  · rw [Task.InPlace, hst] at hplace
    obtain ⟨-, -, e, he, -⟩ := hplace
    rw [hnone] at he
    cases he
  · rw [Task.InPlace, hst] at hplace
    obtain ⟨-, e, route, he, -⟩ := hplace
    rw [hnone] at he
    cases he

/-- The listener of an exchange is released when the exchange goes, however it goes, and no other
listener is. -/
theorem only_own_listener_is_released (hs : s.IsOpening) (acts : List Act) : s.Accounts acts := by
  have hsound : ∀ acts, (s.after acts).Sound := hs.sound_after
  have hlists : ∀ acts, (s.after acts).Lists (s.ledger acts []) :=
    hs.sound.lists_after hs.lists
  have howner : ∀ acts id, (∀ t ∈ (s.after acts).world.tasks, t.id ≠ id) →
      ∀ e ∈ s.ledger acts [], e.owner ≠ .task id := by
    intro acts id hgone e he ho
    have hheld := (hlists acts).held e he
    rw [ho] at hheld
    obtain ⟨t, ht, hid, -⟩ := hheld
    exact hgone t ht hid
  refine ⟨hlists acts, (hlists acts).total (hsound acts).seated, ?_, ?_, ?_, ?_⟩
  · intro id hout
    refine howner acts id fun t ht hid => hout ?_
    rw [← hid]
    exact (hsound acts).outcomes_of_mem ht
  · intro t ht hd more
    refine howner _ t.id ?_
    obtain ⟨hgone, -⟩ := (hsound acts).cleared_act ht hd
    rw [after_append, after_cons]
    exact (((hsound acts).act _).gone_after ((hsound acts).lt_nextId ht _) hgone more).1
  · intro e he more hclose hthere
    rw [ledger_append]
    rw [after_append] at hthere
    exact (hlists acts).kept (hsound acts) he hclose hthere
  · intro hnone hhandles
    rw [(hlists acts).total (hsound acts).seated, List.length_eq_zero_iff,
      List.eq_nil_iff_forall_not_mem]
    intro e he
    have hheld := (hlists acts).held e he
    cases ho : e.owner with
    | task id =>
      rw [ho] at hheld
      obtain ⟨t, ht, -, hsub⟩ := hheld
      exact (hsound acts).errand_of_hub ht hsub (hnone t ht)
    | handle n =>
      rw [ho] at hheld
      exact hhandles n e.key e.id hheld

/-- An exchange is dropped while it watches, with an answer in its inbox: it alone is struck out,
and the other listener of the key still has the answer. -/
theorem dropped_exchange_leaves_the_other :
    ((opening [silentPeer]).after
      [.start "t0" firstJob .never, .move (.task 0), .listen none "k", .move (.task 0),
        .move (.task 0), .publish "k" [7], .drop 0, .move (.task 0)]).Lists
      [⟨.handle 0, "k", 1, [[7]]⟩] := by
  have hledger : (opening [silentPeer]).ledger
      [.start "t0" firstJob .never, .move (.task 0), .listen none "k", .move (.task 0),
        .move (.task 0), .publish "k" [7], .drop 0, .move (.task 0)] [] =
      [⟨.handle 0, "k", 1, [[7]]⟩] := by
    decide +kernel
  rw [← hledger]
  exact (only_own_listener_is_released (opening_isOpening [silentPeer]) _).lists

end Scene

end Roaming.Simulation
