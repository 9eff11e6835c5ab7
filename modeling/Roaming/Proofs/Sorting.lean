import Roaming.Proofs.Values

/-!
# The order of members

Values of the peer's are kept with their members in ascending order of names, of equal names the
last one. What is in this order stays as it is, and values that differ only in the order of members
and in members that a later one overrides are kept as the same value.
-/

set_option autoImplicit false
set_option relaxedAutoImplicit false

namespace Roaming.Json

/-! ### Members -/

section Members

variable {α : Type} {m n : String} {v w : α} {members front back : List (String × α)}

theorem mem_insertMember {x : String × α} (h : x ∈ insertMember n v members) :
    x = (n, v) ∨ x ∈ members := by
  induction members with
  | nil => exact .inl (List.mem_singleton.mp h)
  | cons p members ih =>
    rw [insertMember] at h
    split_ifs at h
    · exact List.mem_cons.mp h
    · rcases List.mem_cons.mp h with h | h
      · exact .inl h
      · exact .inr (List.mem_cons_of_mem _ h)
    · rcases List.mem_cons.mp h with h | h
      · exact .inr (List.mem_cons.mpr (.inl h))
      · exact (ih h).imp_right (List.mem_cons_of_mem _)

/-- Of two members with the same name the last one stays. -/
theorem insertMember_again (n : String) (v w : α) (members : List (String × α)) :
    insertMember n v (insertMember n w members) = insertMember n v members := by
  have hn := String.lt_irrefl n
  induction members with
  | nil => simp only [insertMember, hn, ↓reduceIte]
  | cons p members ih =>
    by_cases hlt : n < p.1
    · simp only [insertMember, hlt, hn, ↓reduceIte]
    · by_cases heq : n = p.1
      · subst heq
        simp only [insertMember, hn, ↓reduceIte]
      · simp only [insertMember, hlt, heq, ih, ↓reduceIte]

/-- Members with different names find their places in any order. -/
theorem insertMember_comm_of_lt (h : m < n) (v w : α) (members : List (String × α)) :
    insertMember m v (insertMember n w members) = insertMember n w (insertMember m v members) := by
  have hmn : n ≠ m := fun he => String.lt_irrefl n (he ▸ h)
  have hnm := String.lt_asymm h
  induction members with
  | nil => simp only [insertMember, h, hnm, hmn, ↓reduceIte]
  | cons p members ih =>
    by_cases hn : n < p.1
    · have hm := String.lt_trans h hn
      simp only [insertMember, h, hn, hm, hnm, hmn, ↓reduceIte]
    · by_cases hn' : n = p.1
      · subst hn'
        simp only [insertMember, h, hn, hnm, hmn, ↓reduceIte]
      · by_cases hm : m < p.1
        · simp only [insertMember, hm, hn, hn', hnm, hmn, ↓reduceIte]
        · by_cases hm' : m = p.1
          · subst hm'
            simp only [insertMember, hm, hnm, hmn, ↓reduceIte]
          · simp only [insertMember, hm, hm', hn, hn', ih, ↓reduceIte]

theorem insertMember_comm (h : m ≠ n) (v w : α) (members : List (String × α)) :
    insertMember m v (insertMember n w members) = insertMember n w (insertMember m v members) := by
  by_cases hlt : m < n
  · exact insertMember_comm_of_lt hlt v w members
  · exact (insertMember_comm_of_lt (Std.lt_of_le_of_ne hlt (Ne.symm h)) w v members).symm

/-- The members in order after one more of them. -/
private def place (members : List (String × α)) (p : String × α) : List (String × α) :=
  insertMember p.1 p.2 members

private theorem sortMembers_append (front back : List (String × α)) :
    sortMembers (front ++ back) = back.foldl place (sortMembers front) :=
  List.foldl_append

theorem mem_sortMembers {x : String × α} (h : x ∈ sortMembers members) : x ∈ members := by
  have hfold : ∀ acc, x ∈ members.foldl place acc → x ∈ acc ∨ x ∈ members := by
    clear h
    induction members with
    | nil => exact fun acc hx => .inl hx
    | cons p members ih =>
      intro acc hx
      rcases ih _ hx with hacc | hmem
      · rcases mem_insertMember hacc with rfl | hacc
        · exact .inr List.mem_cons_self
        · exact .inl hacc
      · exact .inr (List.mem_cons_of_mem _ hmem)
  exact (hfold [] h).resolve_left List.not_mem_nil

theorem sortMembers_swap {p q : String × α} (h : p.1 ≠ q.1) :
    sortMembers (front ++ p :: q :: back) = sortMembers (front ++ q :: p :: back) := by
  rw [sortMembers_append, sortMembers_append]
  exact congrArg (back.foldl place) (insertMember_comm (Ne.symm h) q.2 p.2 (sortMembers front))

/-- The induction is on the members behind: the one that overrides it is reached past those
with other names. -/
theorem sortMembers_overridden {p : String × α} (h : p.1 ∈ back.map Prod.fst) :
    sortMembers (front ++ p :: back) = sortMembers (front ++ back) := by
  have hfold : ∀ acc, back.foldl place (place acc p) = back.foldl place acc := by
    induction back with
    | nil => exact absurd h List.not_mem_nil
    | cons q back ih =>
      intro acc
      by_cases hname : p.1 = q.1
      · have hagain : place (place acc p) q = place acc q := by
          rw [place, place, hname]
          exact insertMember_again q.1 q.2 p.2 acc
        rw [List.foldl_cons, hagain, List.foldl_cons]
      · have hcomm : place (place acc p) q = place (place acc q) p :=
          insertMember_comm (Ne.symm hname) q.2 p.2 acc
        have hback : p.1 ∈ back.map Prod.fst := (List.mem_cons.mp h).resolve_left hname
        rw [List.foldl_cons, hcomm, ih hback, List.foldl_cons]
  rw [sortMembers_append, sortMembers_append]
  exact hfold (sortMembers front)

/-- Whether the members are in ascending order of their names, each name once. -/
def Ascending (members : List (String × α)) : Prop :=
  members.Pairwise fun p q => p.1 < q.1

theorem Ascending.insertMember (h : Ascending members) (n : String) (v : α) :
    Ascending (insertMember n v members) := by
  induction members with
  | nil => exact List.pairwise_singleton _ _
  | cons p members ih =>
    obtain ⟨hp, hmembers⟩ := List.pairwise_cons.mp h
    rw [Json.insertMember]
    split_ifs with hlt heq
    · refine List.pairwise_cons.mpr ⟨fun q hq => ?_, h⟩
      rcases List.mem_cons.mp hq with rfl | hq
      · exact hlt
      · exact String.lt_trans hlt (hp q hq)
    · subst heq
      exact List.pairwise_cons.mpr ⟨hp, hmembers⟩
    · refine List.pairwise_cons.mpr ⟨fun q hq => ?_, ih hmembers⟩
      rcases mem_insertMember hq with rfl | hq
      · exact Std.lt_of_le_of_ne hlt (Ne.symm heq)
      · exact hp q hq

theorem ascending_sortMembers (members : List (String × α)) : Ascending (sortMembers members) := by
  have hfold : ∀ acc, Ascending acc → Ascending (members.foldl place acc) := by
    induction members with
    | nil => exact fun acc h => h
    | cons p members ih => exact fun acc h => ih _ (h.insertMember p.1 p.2)
  exact hfold [] List.Pairwise.nil

private theorem insertMember_last (h : ∀ p ∈ members, p.1 < n) :
    insertMember n v members = members ++ [(n, v)] := by
  induction members with
  | nil => rfl
  | cons p members ih =>
    have hp := h p List.mem_cons_self
    have hne : n ≠ p.1 := fun he => String.lt_irrefl n (he ▸ hp)
    rw [insertMember, if_neg (String.lt_asymm hp), if_neg hne,
      ih fun q hq => h q (List.mem_cons_of_mem _ hq), List.cons_append]

/-- Members that are in order stay as they are. The induction is on those that are
still to be placed. -/
theorem Ascending.sortMembers_eq (h : Ascending members) : sortMembers members = members := by
  have hfold : ∀ acc, Ascending (acc ++ members) → members.foldl place acc = acc ++ members := by
    clear h
    induction members with
    | nil => exact fun acc _ => (List.append_nil acc).symm
    | cons p members ih =>
      intro acc hacc
      have hbefore : ∀ q ∈ acc, q.1 < p.1 := fun q hq =>
        (List.pairwise_append.mp hacc).2.2 q hq p List.mem_cons_self
      have hplace : place acc p = acc ++ [p] := insertMember_last hbefore
      rw [List.append_cons] at hacc
      rw [List.foldl_cons, hplace, ih _ hacc, ← List.append_cons]
  exact hfold [] h

end Members

namespace Value

/-! ### Values -/

theorem sortedAll_eq_map (items : List Value) : sortedAll items = items.map sorted := by
  induction items with
  | nil => rfl
  | cons v items ih => rw [sortedAll, ih, List.map_cons]

theorem sortedMembers_eq_map (members : List (String × Value)) :
    sortedMembers members = members.map fun p => (p.1, p.2.sorted) := by
  induction members with
  | nil => rfl
  | cons p members ih => rw [sortedMembers, ih, List.map_cons]

theorem sorted_eq_null {v : Value} : v.sorted = .null ↔ v = .null := by
  cases v <;> simp [sorted]

/-- Once all values of members are sorted, sorting the members by name is all there is to do. -/
private theorem sorted_of_sorted {members : List (String × Value)}
    (h : ∀ p ∈ members, p.2.sorted = p.2) : sortedMembers members = members := by
  have hmap : ∀ p ∈ members, (p.1, p.2.sorted) = id p := fun p hp => by rw [h p hp]; rfl
  rw [sortedMembers_eq_map, List.map_congr_left hmap, List.map_id]

mutual

theorem sorted_sorted (v : Value) : v.sorted.sorted = v.sorted := by
  cases v with
  | null | bool | whole | real | text => rfl
  | list items =>
    have hitems : ∀ w ∈ sortedAll items, w.sorted = w := sorted_sortedAll items
    rw [sorted, sorted, sortedAll_eq_map (sortedAll items)]
    exact congrArg list ((List.map_congr_left hitems).trans (List.map_id _))
  | object members =>
    have hmembers := sorted_sortedMembers members
    rw [sorted, sorted, sorted_of_sorted fun p hp => hmembers p (mem_sortMembers hp),
      (ascending_sortMembers _).sortMembers_eq]

theorem sorted_sortedAll (items : List Value) : ∀ w ∈ sortedAll items, w.sorted = w := by
  cases items with
  | nil => exact fun w hw => absurd hw List.not_mem_nil
  | cons v items =>
    intro w hw
    rw [sortedAll] at hw
    rcases List.mem_cons.mp hw with rfl | hw
    · exact sorted_sorted v
    · exact sorted_sortedAll items w hw

theorem sorted_sortedMembers (members : List (String × Value)) :
    ∀ p ∈ sortedMembers members, p.2.sorted = p.2 := by
  cases members with
  | nil => exact fun p hp => absurd hp List.not_mem_nil
  | cons q members =>
    obtain ⟨name, v⟩ := q
    intro p hp
    rw [sortedMembers] at hp
    rcases List.mem_cons.mp hp with rfl | hp
    · exact sorted_sorted v
    · exact sorted_sortedMembers members p hp

end

theorem depthMembers_le_iff {members : List (String × Value)} {d : Nat} :
    depthMembers members ≤ d ↔ ∀ p ∈ members, p.2.depth ≤ d := by
  induction members with
  | nil => simp [depthMembers]
  | cons p members ih => rw [depthMembers, Nat.max_le, ih, List.forall_mem_cons]

mutual

/-- Sorting leaves members out and does not put any in. -/
theorem depth_sorted_le (v : Value) : v.sorted.depth ≤ v.depth := by
  cases v with
  | null | bool | whole | real | text => exact Nat.le_refl _
  | list items =>
    rw [sorted, depth, depth]
    exact Nat.succ_le_succ (depth_sortedAll_le items)
  | object members =>
    rw [sorted, depth, depth]
    refine Nat.succ_le_succ (depthMembers_le_iff.mpr fun p hp => ?_)
    exact depthMembers_le_iff.mp (depth_sortedMembers_le members) p (mem_sortMembers hp)

theorem depth_sortedAll_le (items : List Value) : depthAll (sortedAll items) ≤ depthAll items := by
  cases items with
  | nil => exact Nat.le_refl _
  | cons v items =>
    have hv := depth_sorted_le v
    have hitems := depth_sortedAll_le items
    rw [sortedAll, depthAll, depthAll]
    omega

theorem depth_sortedMembers_le (members : List (String × Value)) :
    depthMembers (sortedMembers members) ≤ depthMembers members := by
  cases members with
  | nil => exact Nat.le_refl _
  | cons p members =>
    obtain ⟨name, v⟩ := p
    have hv := depth_sorted_le v
    have hmembers := depth_sortedMembers_le members
    rw [sortedMembers, depthMembers, depthMembers]
    omega

end

/-! ### Rearranging -/

/-- One rearrangement anywhere in a value: of two members with different names that stand side by
side the order changes, or a member goes that a later one of the same name overrides. -/
inductive Rearranges : Value → Value → Prop where
  | item {v w : Value} (h : Rearranges v w) (front back : List Value) :
      Rearranges (.list (front ++ v :: back)) (.list (front ++ w :: back))
  | member {v w : Value} (h : Rearranges v w) (name : String) (front back : List (String × Value)) :
      Rearranges (.object (front ++ (name, v) :: back)) (.object (front ++ (name, w) :: back))
  | swapped {p q : String × Value} (h : p.1 ≠ q.1) (front back : List (String × Value)) :
      Rearranges (.object (front ++ p :: q :: back)) (.object (front ++ q :: p :: back))
  | overridden {p : String × Value} {back : List (String × Value)} (h : p.1 ∈ back.map Prod.fst)
      (front : List (String × Value)) :
      Rearranges (.object (front ++ p :: back)) (.object (front ++ back))

theorem Rearranges.sorted_eq {v w : Value} (h : Rearranges v w) : v.sorted = w.sorted := by
  induction h with
  | item _ front back ih => simp [sorted, sortedAll_eq_map, ih]
  | member _ name front back ih => simp [sorted, sortedMembers_eq_map, ih]
  | @swapped p q h front back =>
    simp only [sorted, sortedMembers_eq_map, List.map_append, List.map_cons]
    exact congrArg object (sortMembers_swap (p := (p.1, p.2.sorted)) (q := (q.1, q.2.sorted)) h)
  | @overridden p back h front =>
    have hname : p.1 ∈ (back.map fun q => (q.1, q.2.sorted)).map Prod.fst := by
      simpa using h
    simp only [sorted, sortedMembers_eq_map, List.map_append, List.map_cons]
    exact congrArg object (sortMembers_overridden (p := (p.1, p.2.sorted)) hname)

end Value

end Roaming.Json
