import Muster.Proofs.Directory.PointStep

/-! How many members a group has, and who is one. -/
namespace Muster.Directory
variable {d : Directory} {policy : Policy} {now : Nat} {a : Action} {id : NodeId} {c : ConnId}
  {member : NodeId}

theorem member?_eq_some : d.member? id c = some member ↔
    ∃ g, d.groups[id]? = some g ∧ g.members[c]? = some member :=
  Option.bind_eq_some_iff

theorem hasConnection_eq_false : d.hasConnection c = false ↔ ∀ id, d.member? id c = none := by
  constructor
  · intro none id
    cases present : d.member? id c with
    | none => rfl
    | some member =>
      obtain ⟨g, group, present⟩ := member?_eq_some.mp present
      have some : d.hasConnection c = true :=
        Table.any_iff.mpr ⟨id, g, group, Table.contains_of_getElem? present⟩
      rw [none] at some
      contradiction
  · intro none
    cases some : d.hasConnection c with
    | false => rfl
    | true =>
      obtain ⟨id, g, group, present⟩ := Table.any_iff.mp some
      obtain ⟨member, present⟩ := Table.contains_iff.mp present
      have here := member?_eq_some.mpr ⟨g, group, present⟩
      rw [none id] at here
      contradiction

theorem act_member_source (present : (d.act policy now a).1.member? id c = some member) :
    d.member? id c = some member ∨ ∃ token, a = .join c member ⟨id, token⟩ := by
  obtain ⟨g', group, present⟩ := member?_eq_some.mp present
  have step := act_covers d policy now a id
  rw [group] at step
  refine (step.member_source present).imp_left ?_
  rintro ⟨g, before, present⟩
  exact member?_eq_some.mpr ⟨g, before, present⟩

theorem fireMany_member_source (fuel : Nat)
    (present : (fireMany policy now fuel d).2.member? id c = some member) :
    d.member? id c = some member := by
  induction fuel generalizing d with
  | zero => exact present
  | succ fuel ih =>
    rw [fireMany_succ] at present
    cases taken : d.agenda.pop? now with
    | none =>
      rw [taken] at present
      exact present
    | some popped =>
      obtain ⟨event, agenda⟩ := popped
      rw [taken] at present
      dsimp only at present
      rw [← fire_of_pop? policy taken] at present
      have before : (d.act policy now .fire).1.member? id c = some member := ih present
      refine (act_member_source before).resolve_right ?_
      rintro ⟨token, action⟩
      contradiction

theorem removeMember_others (d : Directory) (now : Nat) (c : ConnId) (id : NodeId) {k : NodeId}
    (other : k ≠ id) : (d.removeMember now c id).1.groups[k]? = d.groups[k]? := by
  have touched : Touches (GroupStep d ⟨0, 0⟩ now (.removeConnection c)) d id
      (d.removeMember now c id) := removeMember_touches fun _ _ => .inr rfl
  exact touched.others k other

theorem removeMember_gone (d : Directory) (now : Nat) (c : ConnId) (id : NodeId) :
    (d.removeMember now c id).1.member? id c = none := by
  unfold removeMember member?
  cases group : d.groups[id]? with
  | none =>
    dsimp only
    rw [group]
    rfl
  | some g =>
    dsimp only
    split
    · split
      · rw [close_groups, if_pos rfl]
        rfl
      · rw [setGroup_groups, if_pos rfl]
        show (g.members.erase c)[c]? = none
        rw [Table.getElem?_erase, if_pos rfl]
    · rename_i stranger
      rw [group]
      exact Std.ExtTreeMap.getElem?_eq_none_of_contains_eq_false (Bool.not_eq_true _ ▸ stranger)

theorem forEach_removeMember_gone (now : Nat) (c : ConnId) {ids : List NodeId}
    (out : ∀ id ∉ ids, d.member? id c = none) (id : NodeId) :
    (forEach (fun d id => d.removeMember now c id) d ids).1.member? id c = none := by
  induction ids generalizing d with
  | nil => exact out id List.not_mem_nil
  | cons first ids ih =>
    show (forEach _ (d.removeMember now c first).1 ids).1.member? id c = none
    apply ih
    intro k later
    by_cases same : k = first
    · rw [same]
      exact removeMember_gone d now c first
    · unfold member?
      rw [removeMember_others d now c first same]
      exact out k (List.not_mem_cons_of_ne_of_not_mem same later)

theorem removeConnection_gone (d : Directory) (now : Nat) (c : ConnId) (id : NodeId) :
    (d.removeConnection now c).1.member? id c = none := by
  apply forEach_removeMember_gone
  intro id out
  cases present : d.member? id c with
  | none => rfl
  | some member =>
    obtain ⟨g, group, present⟩ := member?_eq_some.mp present
    exact absurd (Table.mem_keys_filter.mpr ⟨g, group, Table.contains_of_getElem? present⟩) out

def Sized (policy : Policy) (d : Directory) : Prop :=
  ∀ (id : NodeId) (g : Group), d.groups[id]? = some g →
    0 < g.members.size ∧ g.members.size ≤ policy.maxGroupSize

theorem act_sized (h : Sized policy d) (room : 1 ≤ policy.maxGroupSize) (now : Nat) (a : Action) :
    Sized policy (d.act policy now a).1 := by
  intro id g' after
  have step := act_covers d policy now a id
  rw [after] at step
  generalize before : d.groups[id]? = s at step
  generalize report (d.act policy now a).2 id = news at step
  cases step with
  | same => exact h id g' before
  | @refresh g => exact h id g before
  | @create g => exact h id g before
  | @arrive g => exact h id g before
  | @resolve g => exact h id g before
  | found action full => omega
  | @enter s g c member action group absent fits =>
    show 0 < (g.members.insert c member).size ∧ (g.members.insert c member).size ≤ _
    have new : ¬g.members.contains c = true := by
      rw [Std.ExtTreeMap.contains_eq_isSome_getElem?, absent]
      exact Bool.false_ne_true
    rw [Std.ExtTreeMap.size_insert, if_neg new]
    exact ⟨Nat.succ_pos _, fits⟩
  | @part g c member action present others =>
    show 0 < (g.members.erase c).size ∧ (g.members.erase c).size ≤ _
    obtain ⟨-, fits⟩ := h id g before
    refine ⟨?_, Nat.le_trans Std.ExtTreeMap.size_erase_le fits⟩
    rw [Std.ExtTreeMap.isEmpty_eq_size_beq_zero] at others
    exact Nat.pos_of_ne_zero (by simpa using others)

theorem Run.sized {past : List Episode} (h : Run policy past d) (room : 1 ≤ policy.maxGroupSize) :
    Sized policy d := by
  induction h with
  | start => exact fun id g here => nomatch Std.ExtTreeMap.getElem?_empty.symm.trans here
  | act now a run ih => exact act_sized ih room now a

end Muster.Directory
