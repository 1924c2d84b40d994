import Muster.Proofs.Directory.Generation
import Muster.Proofs.Directory.Roster
import Muster.Proofs.Server.Outbox

/-! What connections were last told of the groups and sync points that they are at. Every change
of a group's members is told to all who are left, and every change of a sync point's arrivals to
all who have arrived, so their last notices are never out of date. -/
namespace Muster

namespace Message

def membersOf? (id : NodeId) (m : Message) : Option (List NodeId) :=
  match m.body with
  | .membershipNotice ref ids _ => if ref.id = id then some ids else none
  | _ => none

def arrivalsOf? (id point : NodeId) (m : Message) : Option (List NodeId) :=
  match m.body with
  | .progressNotice ref ids name _ => if ref.id = id ∧ name = point then some ids else none
  | _ => none

end Message

/-- Whether a list has exactly the names of the members, in order. -/
structure Members.ListedBy (m : Members) (ids : List NodeId) : Prop where
  all : ids.Perm m.values
  sorted : ids.Pairwise fun a b => a.le b

theorem Members.listedBy_ids (m : Members) : m.ListedBy m.ids where
  all := List.mergeSort_perm m.values NodeId.le
  sorted := List.pairwise_mergeSort NodeId.le_trans NodeId.le_total m.values

/-- What a connection reads off the last of its messages that has anything of this kind in it. -/
def lastTold {α : Type} (read : Message → Option α) (c : ConnId)
    (mail : List (ConnId × Message)) : Option α :=
  (mail.filterMap fun x => if x.1 = c then read x.2 else none).getLast?

section
open Server (news)
variable {α : Type} {read : Message → Option α} {c : ConnId} {t : Token}
  {bs : List Broadcast} {b : Broadcast}

theorem lastTold_append (bs bs' : List Broadcast) : lastTold read c (news t (bs ++ bs')) =
    (lastTold read c (news t bs')).or (lastTold read c (news t bs)) := by
  unfold lastTold news
  rw [List.flatMap_append, List.filterMap_append, List.getLast?_append]

/-- News without anything of this kind in it is as good as none. -/
theorem lastTold_eq_none (silent : ∀ b ∈ bs, read (b.news.message t) = none) :
    lastTold read c (news t bs) = none := by
  unfold lastTold news
  rw [List.getLast?_eq_none_iff, List.filterMap_eq_nil_iff]
  intro x mem
  obtain ⟨b, hb, mem⟩ := List.mem_flatMap.mp mem
  obtain ⟨k, -, rfl⟩ := List.mem_map.mp mem
  rw [silent b hb, ite_self]

theorem lastTold_receiver (told : c ∈ b.receivers) :
    lastTold read c (news t [b]) = read (b.news.message t) := by
  cases eq : read (b.news.message t) with
  | none =>
    apply lastTold_eq_none
    intro b' mem
    rw [List.mem_singleton.mp mem, eq]
  | some v =>
    let found := (news t [b]).filterMap fun x => if x.1 = c then read x.2 else none
    have mem_news : ∀ x, x ∈ news t [b] ↔ ∃ k ∈ b.receivers, (k, b.news.message t) = x := by
      intro x
      rw [news, List.flatMap_singleton, List.mem_map]
    have here : v ∈ found :=
      List.mem_filterMap.mpr ⟨(c, b.news.message t), (mem_news _).mpr ⟨c, told, rfl⟩, by simp [eq]⟩
    have all : ∀ u ∈ found, u = v := by
      intro u mem
      obtain ⟨x, mem, chosen⟩ := List.mem_filterMap.mp mem
      obtain ⟨k, -, rfl⟩ := (mem_news x).mp mem
      split at chosen
      · exact Option.some.inj (chosen.symm.trans eq)
      · contradiction
    obtain ⟨u, last⟩ := Option.ne_none_iff_exists'.mp
      (mt List.getLast?_eq_none_iff.mp (List.ne_nil_of_mem here))
    show found.getLast? = some v
    rw [last, all u (List.mem_of_getLast? last)]

/-- News of other kinds may be left out. -/
theorem lastTold_filter {keep : Broadcast → Bool}
    (silent : ∀ b, keep b = false → read (b.news.message t) = none) :
    lastTold read c (news t (bs.filter keep)) = lastTold read c (news t bs) := by
  induction bs with
  | nil => rfl
  | cons b bs ih =>
    have whole : lastTold read c (news t (b :: bs)) =
        (lastTold read c (news t bs)).or (lastTold read c (news t [b])) := lastTold_append [b] bs
    rw [whole]
    cases kept : keep b with
    | true =>
      rw [List.filter_cons_of_pos kept, ← ih]
      exact lastTold_append [b] _
    | false =>
      have quiet : lastTold read c (news t [b]) = none := by
        apply lastTold_eq_none
        intro b' mem
        rw [List.mem_singleton.mp mem, silent b kept]
      rw [List.filter_cons_of_neg (by rw [kept]; exact Bool.false_ne_true), ih, quiet,
        Option.or_none]

end

namespace Directory
open Server (news)

section
variable {d : Directory} {policy : Policy} {now : Nat} {a : Action} {id name : NodeId}
  {bs : List Broadcast} {c : ConnId}

/-- Notices of a group's members are part of what is said about the group. -/
theorem lastTold_report (bs : List Broadcast) (t : Token) (id : NodeId) (c : ConnId) :
    lastTold (Message.membersOf? id) c (news t (report bs id)) =
      lastTold (Message.membersOf? id) c (news t bs) := by
  apply lastTold_filter
  intro b other
  cases news : b.news with
  | membership ref ids code =>
    rw [news] at other
    exact if_neg (of_decide_eq_false other)
  | progress => rfl

/-- Notices of a sync point are part of what is said about it. -/
theorem lastTold_said (bs : List Broadcast) (t : Token) (id name : NodeId) (c : ConnId) :
    lastTold (Message.arrivalsOf? id name) c (news t (said bs id name)) =
      lastTold (Message.arrivalsOf? id name) c (news t bs) := by
  apply lastTold_filter
  intro b other
  unfold Broadcast.concerns at other
  cases news : b.news with
  | membership => rfl
  | progress ref point generation ids code =>
    rw [news] at other
    exact if_neg (of_decide_eq_false other)

/-- A change of a group's members is told to all who are members after it, and there is no other
notice of its members. -/
theorem GroupStep.last_members {s : Option Group} {g' : Group}
    (step : GroupStep d policy now a id s (some g') bs) (t : Token)
    (present : c ∈ g'.members.connections) :
    lastTold (Message.membersOf? id) c (news t bs) = some g'.members.ids ∨
      lastTold (Message.membersOf? id) c (news t bs) = none ∧
        ∃ g, s = some g ∧ g.members = g'.members := by
  have announced (g : Group) (code : MembershipCode) (mem : c ∈ g.members.connections) :
      lastTold (Message.membersOf? id) c (news t [g.announceMembers id code]) =
        some g.members.ids := by
    rw [lastTold_receiver mem]
    exact if_pos rfl
  have unannounced (g : Group) (name : NodeId) (p : SyncPoint) (code : ProgressCode) :
      lastTold (Message.membersOf? id) c (news t [g.announceProgress id name p code]) = none := by
    apply lastTold_eq_none
    intro b mem
    rw [List.mem_singleton.mp mem]
    rfl
  cases step with
  | same => exact .inr ⟨rfl, g', rfl, rfl⟩
  | @refresh g => exact .inr ⟨rfl, g, rfl, rfl⟩
  | found => exact absurd present List.not_mem_nil
  | enter => exact .inl (announced _ .join present)
  | @create g => exact .inr ⟨unannounced .., g, rfl, rfl⟩
  | @arrive g => exact .inr ⟨unannounced .., g, rfl, rfl⟩
  | @part g c' =>
    left
    rw [lastTold_append, announced { g with members := g.members.erase c' } .leave present]
    rfl
  | @resolve g => exact .inr ⟨unannounced .., g, rfl, rfl⟩

/-- A change of a sync point's arrivals is told to all who are there after it. -/
theorem PointStep.last_arrivals {m m' : Members} {s : Option SyncPoint} {p' : SyncPoint}
    (step : PointStep d now a id name m m' s (some p') bs) (t : Token)
    (arrived : c ∈ p'.arrived.connections) :
    lastTold (Message.arrivalsOf? id name) c (news t bs) = some p'.arrived.ids ∨
      lastTold (Message.arrivalsOf? id name) c (news t bs) = none ∧
        ∃ p, s = some p ∧ p.arrived = p'.arrived := by
  have noticed (p : SyncPoint) (token : Token) (code : ProgressCode)
      (same : p.arrived = p'.arrived) :
      lastTold (Message.arrivalsOf? id name) c (news t [p.notice ⟨id, token⟩ name code]) =
        some p'.arrived.ids := by
    rw [lastTold_receiver (show c ∈ p.arrived.connections from same ▸ arrived), ← same]
    exact if_pos ⟨rfl, rfl⟩
  cases step with
  | keep => exact .inr ⟨rfl, p', rfl, rfl⟩
  | create => exact .inl (noticed _ _ _ (SyncPoint.meet_arrived ..).symm)
  | arrive => exact .inl (noticed _ _ _ (SyncPoint.meet_arrived ..).symm)
  | depart => exact .inl (noticed _ _ _ rfl)

/-- The last notice of a group's members to one of them lists who is a member now. -/
theorem Run.last_members {past : List Episode} (h : Run policy past d) (t : Token) {g : Group}
    (group : d.groups[id]? = some g) (present : c ∈ g.members.connections) :
    lastTold (Message.membersOf? id) c (news t (told past)) = some g.members.ids := by
  induction h generalizing g with
  | start => exact nomatch Std.ExtTreeMap.getElem?_empty.symm.trans group
  | @act past d now a run ih =>
    have step := act_covers d policy now a id
    rw [group] at step
    show lastTold _ c (news t (told past ++ (d.act policy now a).2)) = _
    rw [lastTold_append]
    obtain new | ⟨old, g', before, same⟩ := step.last_members t present
    · rw [lastTold_report] at new
      rw [new]
      rfl
    · rw [lastTold_report] at old
      rw [old, ih before (same ▸ present), same]
      rfl

/-- The last notice of a sync point to one who has arrived there lists who has by now. -/
theorem Run.last_arrivals {past : List Episode} (h : Run policy past d) (t : Token)
    {p : SyncPoint} (point : d.point? id name = some p) (arrived : c ∈ p.arrived.connections) :
    lastTold (Message.arrivalsOf? id name) c (news t (told past)) = some p.arrived.ids := by
  induction h generalizing p with
  | start => exact nomatch (empty_point? id name).symm.trans point
  | @act past d now a run ih =>
    have step := act_pointStep d policy now a id name
    rw [point] at step
    show lastTold _ c (news t (told past ++ (d.act policy now a).2)) = _
    rw [lastTold_append]
    obtain new | ⟨old, p', before, same⟩ := step.last_arrivals t arrived
    · rw [lastTold_said] at new
      rw [new]
      rfl
    · rw [lastTold_said] at old
      rw [old, ih before (same ▸ arrived), same]
      rfl

/-- After any run, the last notice of a group's members that was queued to one of them lists
exactly the members of now, in order; and the last notice of a sync point that was queued to one
who has arrived there lists exactly those who have by now, in order. -/
theorem Run.last_notices_current {past : List Episode} (h : Run policy past d) (server : Token)
    {id : NodeId} {g : Group} (group : d.groups[id]? = some g) :
    (∀ c, g.members.contains c → ∃ ids,
        lastTold (Message.membersOf? id) c (news server (told past)) = some ids ∧
          g.members.ListedBy ids) ∧
      ∀ name p, g.points[name]? = some p → ∀ c, p.arrived.contains c → ∃ ids,
        lastTold (Message.arrivalsOf? id name) c (news server (told past)) = some ids ∧
          p.arrived.ListedBy ids := by
  refine ⟨fun c present => ?_, fun name p point c arrived => ?_⟩
  · have there := Members.mem_connections.mpr (Table.contains_iff.mp present)
    have told := h.last_members server group there
    exact ⟨g.members.ids, told, g.members.listedBy_ids⟩
  · have here : d.point? id name = some p := Option.bind_eq_some_iff.mpr ⟨g, group, point⟩
    have there := Members.mem_connections.mpr (Table.contains_iff.mp arrived)
    have told := h.last_arrivals server here there
    exact ⟨p.arrived.ids, told, p.arrived.listedBy_ids⟩

end

/-- Three join, two of them arrive, and the third leaves. -/
def twoAwaited : List (Nat × Action) :=
  [(0, .leave 3 sampleRef), (0, .sync 2 sampleRef sampleTerms), (0, .sync 1 sampleRef sampleTerms),
    (0, .join 3 sampleTerms.point sampleRef), (0, .join 2 sampleMember sampleRef),
    (0, .join 1 sampleRef.id sampleRef)]

theorem last_notices_current_of_three :
    let past := (play ⟨3, 0⟩ twoAwaited).1
    ∃ (g : Group) (p : SyncPoint), g.members.size = 2 ∧ p.arrived.size = 2 ∧
      (∃ ids, lastTold (Message.membersOf? sampleRef.id) 1 (news .null (told past)) = some ids ∧
        g.members.ListedBy ids) ∧
      ∃ ids, lastTold (Message.arrivalsOf? sampleRef.id sampleTerms.point) 2
          (news .null (told past)) = some ids ∧ p.arrived.ListedBy ids := by
  intro past
  have run : Run ⟨3, 0⟩ past _ := (History.play ⟨3, 0⟩ (by decide)).run
  obtain ⟨g, group⟩ : ∃ g, (play ⟨3, 0⟩ twoAwaited).2.groups[sampleRef.id]? = some g := ⟨_, rfl⟩
  obtain ⟨p, point⟩ : ∃ p, g.points[sampleTerms.point]? = some p := by
    cases group
    exact ⟨_, rfl⟩
  obtain ⟨members, arrivals⟩ := Run.last_notices_current run .null group
  refine ⟨g, p, ?_, ?_, members 1 ?_, arrivals sampleTerms.point p point 2 ?_⟩
  · cases group
    rfl
  · cases group
    cases point
    rfl
  · cases group
    rfl
  · cases group
    cases point
    rfl

end Directory
end Muster
