import Muster.Proofs.Directory.Isolation

/-! In which order groups, sync points and connections are visited makes no difference. A connection
is taken out of its groups, and idle groups are closed, by steps each of which is about one group
only; so they may be taken in any order, and members may as well leave one group after the other. -/
namespace Muster

/-- Whether a broadcast is another one with its receivers in some order. -/
structure Broadcast.Like (b b' : Broadcast) : Prop where
  news : b.news = b'.news
  receivers : b.receivers.Perm b'.receivers

/-- Whether a broadcast is about a sync point of this name or about the members of its group. -/
def Broadcast.follows (b : Broadcast) (id name : NodeId) : Bool :=
  match b.news with
  | .membership ref .. => ref.id = id
  | .progress ref point .. => ref.id = id ∧ point = name

def copies (bs : List Broadcast) : List (ConnId × News) :=
  bs.flatMap fun b => b.receivers.map fun c => (c, b.news)

/-- The same packets in another order. What is said about the members of a group and one of its sync
points stays in its order; only the receivers of one broadcast, different sync points and different
groups may change places. -/
structure Alike (bs bs' : List Broadcast) : Prop where
  packets : (copies bs).Perm (copies bs')
  threads : ∀ id name, List.Forall₂ Broadcast.Like (bs.filter fun b => b.follows id name)
    (bs'.filter fun b => b.follows id name)

theorem perm_eq_of_length_le_one {α : Type} {xs ys : List α} (perm : xs.Perm ys)
    (few : ys.length ≤ 1) : xs = ys := by
  match ys, few with
  | [], _ => exact perm.eq_nil
  | [y], _ => exact perm.eq_singleton

section
variable {b b' : Broadcast} {bs bs' bs'' cs cs' : List Broadcast} {id name : NodeId}

theorem Broadcast.Like.refl (b : Broadcast) : b.Like b := ⟨rfl, .refl _⟩

theorem Broadcast.Like.trans {b'' : Broadcast} (h : b.Like b') (h' : b'.Like b'') : b.Like b'' :=
  ⟨h.news.trans h'.news, h.receivers.trans h'.receivers⟩

theorem like_self (bs : List Broadcast) : List.Forall₂ Broadcast.Like bs bs :=
  List.forall₂_same.mpr fun b _ => .refl b

theorem like_trans (h : List.Forall₂ Broadcast.Like bs bs')
    (h' : List.Forall₂ Broadcast.Like bs' bs'') : List.Forall₂ Broadcast.Like bs bs'' := by
  induction h generalizing bs'' with
  | nil => exact h'
  | cons like later ih =>
    cases h' with
    | cons like' later' => exact .cons (like.trans like') (ih later')

theorem Broadcast.Like.follows (h : b.Like b') (id name : NodeId) :
    b.follows id name = b'.follows id name := by
  unfold Broadcast.follows
  rw [h.news]

theorem Broadcast.group_of_follows (h : b.follows id name = true) : b.news.group.id = id := by
  unfold Broadcast.follows at h
  split at h
  · rename_i news
    rw [news]
    exact of_decide_eq_true h
  · rename_i news
    rw [news]
    exact (of_decide_eq_true h).1

@[simp] theorem copies_append (bs bs' : List Broadcast) :
    copies (bs ++ bs') = copies bs ++ copies bs' := List.flatMap_append

theorem filter_follows_of_about {k : NodeId} (about : ∀ b ∈ bs, b.news.group.id = k)
    (other : k ≠ id) (name : NodeId) : (bs.filter fun b => b.follows id name) = [] := by
  rw [List.filter_eq_nil_iff]
  intro b mem follows
  exact other ((about b mem).symm.trans (Broadcast.group_of_follows follows))

namespace Alike

theorem refl (bs : List Broadcast) : Alike bs bs :=
  ⟨.refl _, fun _ _ => like_self _⟩

theorem symm (h : Alike bs bs') : Alike bs' bs where
  packets := h.packets.symm
  threads id name := by
    refine ((h.threads id name).flip).imp fun b b' like => ?_
    exact ⟨like.news.symm, like.receivers.symm⟩

theorem trans (h : Alike bs bs') (h' : Alike bs' bs'') : Alike bs bs'' where
  packets := h.packets.trans h'.packets
  threads id name := like_trans (h.threads id name) (h'.threads id name)

theorem append (h : Alike bs bs') (h' : Alike cs cs') : Alike (bs ++ cs) (bs' ++ cs') where
  packets := by
    rw [copies_append, copies_append]
    exact h.packets.append h'.packets
  threads id name := by
    rw [List.filter_append, List.filter_append]
    exact List.rel_append (h.threads id name) (h'.threads id name)

theorem of_like (h : List.Forall₂ Broadcast.Like bs bs') : Alike bs bs' := by
  induction h with
  | nil => exact .refl []
  | @cons b b' bs bs' like later ih =>
    have first : Alike [b] [b'] := by
      refine ⟨?_, fun id name => ?_⟩
      · unfold copies
        rw [List.flatMap_singleton, List.flatMap_singleton, like.news]
        exact like.receivers.map _
      · have same := like.follows id name
        cases follows : b.follows id name with
        | true => simp [follows, same.symm.trans follows, like]
        | false => simp [follows, same.symm.trans follows]
    exact first.append ih

theorem swap {i j : NodeId} (other : i ≠ j) (first : ∀ b ∈ bs, b.news.group.id = i)
    (second : ∀ b ∈ cs, b.news.group.id = j) : Alike (bs ++ cs) (cs ++ bs) where
  packets := by
    rw [copies_append, copies_append]
    exact List.perm_append_comm
  threads id name := by
    rw [List.filter_append, List.filter_append]
    by_cases own : i = id
    · rw [filter_follows_of_about second (own ▸ other.symm), List.append_nil, List.nil_append]
      exact like_self _
    · rw [filter_follows_of_about first own, List.append_nil, List.nil_append]
      exact like_self _

/-- Different sync points may change places, but not with the members of their group. -/
theorem of_visits {points : Std.ExtTreeMap NodeId SyncPoint} {visited : List (NodeId × SyncPoint)}
    (all : visited.Perm points.toList) (g : Group) (id : NodeId) (code : ProgressCode)
    (change : SyncPoint → SyncPoint) (last : Broadcast) :
    Alike (visited.map (fun x => g.announceProgress id x.1 (change x.2) code) ++ [last])
      (points.toList.map (fun x => g.announceProgress id x.1 (change x.2) code) ++ [last]) := by
  let tell (x : NodeId × SyncPoint) : Broadcast := g.announceProgress id x.1 (change x.2) code
  have told : (visited.map tell).Perm (points.toList.map tell) := all.map tell
  refine append ⟨?_, fun k name => ?_⟩ (refl [last])
  · exact told.flatMap_right _
  · have kept := told.filter fun b => b.follows k name
    have few : ((points.toList.map tell).filter fun b => b.follows k name).length ≤ 1 := by
      by_cases own : id = k
      · have only := Table.filter_map_toList points name tell (fun b => b.follows k name) (by
          intro x
          simp [tell, Broadcast.follows, Group.announceProgress, own])
        rw [only]
        cases points[name]? <;> simp
      · have about : ∀ b ∈ points.toList.map tell, b.news.group.id = id := by
          intro b mem
          obtain ⟨x, -, rfl⟩ := List.mem_map.mp mem
          rfl
        rw [filter_follows_of_about about own name]
        exact Nat.zero_le 1
    rw [perm_eq_of_length_le_one kept few]
    exact like_self _

end Alike

end

theorem Agenda.cancelAll_entries {ε : Type} (a : Agenda ε) (numbers : List Nat) :
    (numbers.foldl Agenda.cancel a).entries = a.entries.filter fun e => e.id ∉ numbers := by
  induction numbers generalizing a with
  | nil => simp
  | cons n numbers ih =>
    rw [List.foldl_cons, ih, Agenda.cancel, List.filter_filter]
    apply List.filter_congr
    intro e mem
    rw [Bool.eq_iff_iff]
    simp [and_comm]

theorem Agenda.cancelAll_nextId {ε : Type} (a : Agenda ε) (numbers : List Nat) :
    (numbers.foldl Agenda.cancel a).nextId = a.nextId := by
  induction numbers generalizing a with
  | nil => rfl
  | cons n numbers ih => exact ih (a.cancel n)

theorem Agenda.cancelAll_perm {ε : Type} (a : Agenda ε) {numbers numbers' : List Nat}
    (perm : numbers.Perm numbers') :
    numbers.foldl Agenda.cancel a = numbers'.foldl Agenda.cancel a := by
  apply Agenda.ext
  · rw [cancelAll_entries, cancelAll_entries]
    apply List.filter_congr
    intro e mem
    simp [perm.mem_iff]
  · rw [cancelAll_nextId, cancelAll_nextId]

namespace Directory

/-- A step that is about one group. What becomes of the group, what is said about it and which
events go is told by the group alone. -/
structure Local (step : Directory → NodeId → Directory × List Broadcast)
    (ends : Option Group → List Nat) : Prop where
  others : ∀ d id k, k ≠ id → (step d id).1.groups[k]? = d.groups[k]?
  own : ∀ d d' id, d.groups[id]? = d'.groups[id]? →
    (step d id).1.groups[id]? = (step d' id).1.groups[id]? ∧ (step d id).2 = (step d' id).2
  agenda : ∀ d id, (step d id).1.agenda = (ends d.groups[id]?).foldl Agenda.cancel d.agenda
  generation : ∀ d id, (step d id).1.nextGeneration = d.nextGeneration
  about : ∀ d id, ∀ b ∈ (step d id).2, b.news.group.id = id

section
variable {step : Directory → NodeId → Directory × List Broadcast}
  {ends : Option Group → List Nat} {d d' : Directory} {i j : NodeId} {ids ids' : List NodeId}

theorem ext_groups (groups : ∀ k : NodeId, d.groups[k]? = d'.groups[k]?)
    (agenda : d.agenda = d'.agenda) (generation : d.nextGeneration = d'.nextGeneration) :
    d = d' := by
  obtain ⟨groups₁, agenda₁, generation₁⟩ := d
  obtain ⟨groups₂, agenda₂, generation₂⟩ := d'
  have same : groups₁ = groups₂ := Std.ExtTreeMap.ext_getElem? fun k => groups k
  obtain rfl : agenda₁ = agenda₂ := agenda
  obtain rfl : generation₁ = generation₂ := generation
  rw [same]

theorem Local.commute (h : Local step ends) (other : i ≠ j) (d : Directory) :
    (step (step d i).1 j).1 = (step (step d j).1 i).1 ∧ (step (step d i).1 j).2 = (step d j).2 := by
  have first : (step d i).1.groups[j]? = d.groups[j]? := h.others d i j other.symm
  have second : (step d j).1.groups[i]? = d.groups[i]? := h.others d j i other
  refine ⟨ext_groups (fun k => ?_) ?_ ?_, (h.own _ _ j first).2⟩
  · by_cases atI : k = i
    · rw [atI, h.others _ j i other]
      exact (h.own _ _ i second).1.symm
    · by_cases atJ : k = j
      · rw [atJ, h.others _ i j other.symm]
        exact (h.own _ _ j first).1
      · rw [h.others _ j k atJ, h.others _ i k atI, h.others _ i k atI, h.others _ j k atJ]
  · rw [h.agenda, h.agenda, h.agenda, h.agenda, first, second, ← List.foldl_append,
      ← List.foldl_append]
    exact Agenda.cancelAll_perm _ List.perm_append_comm
  · rw [h.generation, h.generation, h.generation, h.generation]

/-- Steps about single groups may be taken in any order. -/
theorem Local.forEach_perm (h : Local step ends) (perm : ids.Perm ids') (d : Directory) :
    (forEach step d ids).1 = (forEach step d ids').1 ∧
      Alike (forEach step d ids).2 (forEach step d ids').2 := by
  induction perm generalizing d with
  | nil => exact ⟨rfl, .refl _⟩
  | cons id perm ih =>
    obtain ⟨same, alike⟩ := ih (step d id).1
    exact ⟨same, (Alike.refl _).append alike⟩
  | swap i j ids =>
    by_cases same : i = j
    · rw [same]
      exact ⟨rfl, .refl _⟩
    · obtain ⟨whole, told⟩ := h.commute same d
      obtain ⟨-, told'⟩ := h.commute (Ne.symm same) d
      have twice (k l : NodeId) : forEach step d (k :: l :: ids) =
          ((forEach step (step (step d k).1 l).1 ids).1, (step d k).2 ++
            ((step (step d k).1 l).2 ++ (forEach step (step (step d k).1 l).1 ids).2)) := rfl
      rw [twice, twice, told, told', whole, ← List.append_assoc, ← List.append_assoc]
      exact ⟨rfl, (Alike.swap (Ne.symm same) (h.about d j) (h.about d i)).append (.refl _)⟩
  | trans perm perm' ih ih' =>
    obtain ⟨same, alike⟩ := ih d
    obtain ⟨same', alike'⟩ := ih' d
    exact ⟨same.trans same', alike.trans alike'⟩

end

def endsOf (g : Group) : List Nat := g.points.values.map SyncPoint.event

theorem cancelPoints_eq (g : Group) (agenda : Agenda Event) :
    g.cancelPoints agenda = (endsOf g).foldl Agenda.cancel agenda := by
  unfold Group.cancelPoints endsOf
  rw [List.foldl_map]

theorem closeGroup_local : Local closeGroup fun s => (s.map endsOf).getD [] where
  others d id k other := by rw [closeGroup_groups, if_neg (Ne.symm other)]
  own d d' id same := by
    refine ⟨by rw [closeGroup_groups, closeGroup_groups, if_pos rfl, if_pos rfl], ?_⟩
    unfold closeGroup
    rw [same]
    cases d'.groups[id]? <;> rfl
  agenda d id := by
    unfold closeGroup
    cases d.groups[id]? with
    | none => rfl
    | some g => exact cancelPoints_eq g d.agenda
  generation := closeGroup_nextGeneration
  about := closeGroup_about

/-- Only the last member's leaving takes events off the agenda. -/
def leavingEnds (c : ConnId) : Option Group → List Nat
  | none => []
  | some g => if g.members.contains c ∧ (g.members.erase c).isEmpty then endsOf g else []

theorem removeMember_local (now : Nat) (c : ConnId) :
    Local (fun d id => d.removeMember now c id) (leavingEnds c) where
  others d id k other := removeMember_others d now c id other
  own d d' id same := by
    unfold removeMember
    rw [same]
    cases group : d'.groups[id]? with
    | none =>
      dsimp only
      exact ⟨same, rfl⟩
    | some g =>
      dsimp only
      split
      · split
        · rw [close_groups, close_groups, if_pos rfl, if_pos rfl]
          exact ⟨rfl, rfl⟩
        · rw [setGroup_groups, setGroup_groups, if_pos rfl, if_pos rfl]
          exact ⟨rfl, rfl⟩
      · exact ⟨same, rfl⟩
  agenda d id := by
    unfold removeMember leavingEnds
    cases d.groups[id]? with
    | none => rfl
    | some g =>
      dsimp only
      by_cases present : g.members.contains c = true
      · by_cases last : (g.members.erase c).isEmpty = true
        · rw [if_pos present, if_pos last, if_pos ⟨present, last⟩]
          exact cancelPoints_eq g d.agenda
        · rw [if_pos present, if_neg last, if_neg fun both => last both.2]
          rfl
      · rw [if_neg present, if_neg fun both => present both.1]
        rfl
  generation d id := removeMember_nextGeneration d now c id
  about d id := removeMember_about d now c id

end Directory

namespace Group
variable {g : Group} {c : ConnId} {visited : List (NodeId × SyncPoint)}

/-- The sync points after a member has departed from some of them, one after the other. -/
def departEach (g : Group) (c : ConnId) (visited : List (NodeId × SyncPoint)) :
    Std.ExtTreeMap NodeId SyncPoint :=
  visited.foldl (fun points x => points.insert x.1 (x.2.depart c)) g.points

theorem departEach_getElem? {points : Std.ExtTreeMap NodeId SyncPoint} {name : NodeId}
    {p : SyncPoint} (agree : ∀ x ∈ visited, x.1 = name → x.2.depart c = p)
    (there : points[name]? = some p ∨ ∃ x ∈ visited, x.1 = name) :
    (visited.foldl (fun points x => points.insert x.1 (x.2.depart c)) points)[name]? = some p := by
  induction visited generalizing points with
  | nil => simpa using there
  | cons x visited ih =>
    refine ih (fun y mem => agree y (List.mem_cons_of_mem x mem)) ?_
    by_cases same : x.1 = name
    · left
      rw [Table.getElem?_insert, if_pos same, agree x List.mem_cons_self same]
    · rw [Table.getElem?_insert, if_neg same]
      simpa [same] using there

theorem departEach_absent {points : Std.ExtTreeMap NodeId SyncPoint} {name : NodeId}
    (absent : points[name]? = none) (unvisited : ∀ x ∈ visited, x.1 ≠ name) :
    (visited.foldl (fun points x => points.insert x.1 (x.2.depart c)) points)[name]? = none := by
  induction visited generalizing points with
  | nil => exact absent
  | cons x visited ih =>
    obtain ⟨first, later⟩ := List.forall_mem_cons.mp unvisited
    refine ih ?_ later
    rw [Table.getElem?_insert, if_neg first, absent]

theorem departEach_eq (all : visited.Perm g.points.toList) :
    g.departEach c visited = g.departAll c := by
  have mem (x : NodeId × SyncPoint) : x ∈ visited ↔ g.points[x.1]? = some x.2 :=
    all.mem_iff.trans Std.ExtTreeMap.mem_toList_iff_getElem?_eq_some
  apply Std.ExtTreeMap.ext_getElem?
  intro name
  rw [Directory.departAll_getElem?]
  cases here : g.points[name]? with
  | none =>
    refine departEach_absent here fun x visit same => ?_
    subst same
    exact nomatch here.symm.trans ((mem x).mp visit)
  | some p =>
    refine departEach_getElem? (fun x visit same => ?_) (.inr ⟨(name, p), (mem _).mpr here, rfl⟩)
    subst same
    have found := here.symm.trans ((mem x).mp visit)
    rw [Option.some.inj found]

theorem announce_departed (g : Group) (c : ConnId) (id : NodeId) :
    (g.departAll c).toList.map (fun x => g.announceProgress id x.1 x.2 .leave) =
      g.points.toList.map fun x => g.announceProgress id x.1 (x.2.depart c) .leave := by
  unfold departAll
  rw [Std.ExtTreeMap.toList_map, List.map_map]
  rfl

theorem cancelEach_eq (all : visited.Perm g.points.toList) (agenda : Agenda Event) :
    visited.foldl (fun a x => a.cancel x.2.event) agenda = g.cancelPoints agenda := by
  have ends : (visited.map fun x => x.2.event).Perm (Directory.endsOf g) := by
    unfold Directory.endsOf
    rw [Table.values_eq, List.map_map]
    exact all.map _
  rw [Directory.cancelPoints_eq, ← Agenda.cancelAll_perm agenda ends, List.foldl_map]

end Group

namespace Directory

/-- A group is closed. Its sync points are visited in any order, their events are cancelled, and
all who are told come in any order. -/
inductive Closes (d : Directory) (id : NodeId) (g : Group) : Directory × List Broadcast → Prop where
  | visit {visited : List (NodeId × SyncPoint)} {told : List Broadcast}
      (all : visited.Perm g.points.toList)
      (tells : List.Forall₂ Broadcast.Like told
        (visited.map (fun x => g.announceProgress id x.1 x.2 .close) ++
          [⟨g.members.connections, .membership ⟨id, g.token⟩ [] .close⟩])) :
      Closes d id g ({ d with
        groups := d.groups.erase id
        agenda := visited.foldl (fun a x => a.cancel x.2.event) d.agenda }, told)

inductive ClosesGroup (d : Directory) (id : NodeId) : Directory × List Broadcast → Prop where
  | none (absent : d.groups[id]? = none) : ClosesGroup d id (d, [])
  | some {g : Group} {out : Directory × List Broadcast} (group : d.groups[id]? = some g)
      (closes : Closes d id g out) : ClosesGroup d id out

/-- A member is taken out of a group. It departs from the sync points in any order. -/
inductive RemovesMember (now : Nat) (c : ConnId) (d : Directory) (id : NodeId) :
    Directory × List Broadcast → Prop where
  | nobody (absent : d.member? id c = none) : RemovesMember now c d id (d, [])
  | last {g : Group} {out : Directory × List Broadcast} (group : d.groups[id]? = some g)
      (present : g.members.contains c = true) (last : (g.members.erase c).isEmpty = true)
      (closes : Closes d id { g with members := g.members.erase c, lastActivity := now } out) :
      RemovesMember now c d id out
  | part {g : Group} {visited : List (NodeId × SyncPoint)} {told : List Broadcast}
      (group : d.groups[id]? = some g) (present : g.members.contains c = true)
      (others : (g.members.erase c).isEmpty = false) (all : visited.Perm g.points.toList)
      (tells : List.Forall₂ Broadcast.Like told
        (visited.map (fun x => g.announceProgress id x.1 (x.2.depart c) .leave) ++
          [{ g with members := g.members.erase c }.announceMembers id .leave])) :
      RemovesMember now c d id
        (d.setGroup id ⟨g.token, g.members.erase c, g.departEach c visited, now⟩, told)

inductive Leaves (now : Nat) (c : ConnId) (d : Directory) (ref : GroupRef) :
    Directory × List Broadcast → Prop where
  | refuse (stranger : ∀ g, d.groups[ref.id]? = some g → g.accepts c ref.token = false) :
      Leaves now c d ref (d, [])
  | remove {g : Group} {out : Directory × List Broadcast} (group : d.groups[ref.id]? = some g)
      (accepted : g.accepts c ref.token = true) (removes : RemovesMember now c d ref.id out) :
      Leaves now c d ref out

inductive Each (step : Directory → NodeId → Directory × List Broadcast → Prop) :
    Directory → List NodeId → Directory × List Broadcast → Prop where
  | rest (d : Directory) : Each step d [] (d, [])
  | next {d d' d'' : Directory} {id : NodeId} {ids : List NodeId} {bs bs' : List Broadcast}
      (first : step d id (d', bs)) (later : Each step d' ids (d'', bs')) :
      Each step d (id :: ids) (d'', bs ++ bs')

/-- Whether an outcome is another one up to the order of packets. -/
def Matches (out out' : Directory × List Broadcast) : Prop := out.1 = out'.1 ∧ Alike out.2 out'.2

namespace Matches

theorem refl (out : Directory × List Broadcast) : Matches out out := ⟨rfl, .refl _⟩

theorem trans {out out' out'' : Directory × List Broadcast} (h : Matches out out')
    (h' : Matches out' out'') : Matches out out'' := ⟨h.1.trans h'.1, h.2.trans h'.2⟩

end Matches

section
variable {now : Nat} {c : ConnId} {d : Directory} {id : NodeId} {g : Group}
  {out : Directory × List Broadcast}

theorem member?_of_absent (absent : d.groups[id]? = none) : d.member? id c = none := by
  unfold member?
  rw [absent]
  rfl

theorem member?_of_stranger (group : d.groups[id]? = some g)
    (stranger : g.members.contains c = false) : d.member? id c = none := by
  unfold member?
  rw [group]
  exact Std.ExtTreeMap.getElem?_eq_none_of_contains_eq_false stranger

theorem Closes.matches (h : Closes d id g out) : Matches out (d.close id g) := by
  cases h with
  | visit all tells =>
    refine ⟨?_, (Alike.of_like tells).trans ?_⟩
    · rw [Group.cancelEach_eq all]
      rfl
    · exact .of_visits all g id .close (fun p => p) _

theorem ClosesGroup.matches (h : ClosesGroup d id out) : Matches out (d.closeGroup id) := by
  unfold closeGroup
  cases h with
  | none absent =>
    rw [absent]
    exact .refl _
  | some group closes =>
    rw [group]
    exact closes.matches

theorem RemovesMember.matches (h : RemovesMember now c d id out) :
    Matches out (d.removeMember now c id) := by
  unfold removeMember
  cases h with
  | nobody absent =>
    cases group : d.groups[id]? with
    | none => exact .refl _
    | some g =>
      unfold member? at absent
      rw [group] at absent
      have stranger : g.members.contains c = false := by
        rw [Std.ExtTreeMap.contains_eq_isSome_getElem?]
        exact congrArg Option.isSome absent
      dsimp only
      rw [if_neg (stranger ▸ Bool.false_ne_true)]
      exact .refl _
  | last group present last closes =>
    rw [group]
    dsimp only
    rw [if_pos present, if_pos last]
    exact closes.matches
  | @part g visited told group present others all tells =>
    rw [group]
    dsimp only
    rw [if_pos present, if_neg (others ▸ Bool.false_ne_true)]
    refine ⟨?_, (Alike.of_like tells).trans ?_⟩
    · rw [Group.departEach_eq all]
      rfl
    · have alike := Alike.of_visits all g id .leave (fun p => p.depart c)
        ({ g with members := g.members.erase c }.announceMembers id .leave)
      rw [← Group.announce_departed] at alike
      exact alike

theorem Leaves.removes {token : Token} (h : Leaves now c d ⟨id, token⟩ out)
    (right : ∀ g, d.groups[id]? = some g → token = g.token) : RemovesMember now c d id out := by
  cases h with
  | remove group accepted removes => exact removes
  | refuse stranger =>
    apply RemovesMember.nobody
    cases group : d.groups[id]? with
    | none => exact member?_of_absent group
    | some g =>
      have refused := stranger g group
      unfold Group.accepts at refused
      rw [right g group, beq_self_eq_true, Bool.true_and] at refused
      exact member?_of_stranger group refused

end

section
variable {step : Directory → NodeId → Directory × List Broadcast → Prop}
  {step' : Directory → NodeId → Directory × List Broadcast} {d : Directory} {ids : List NodeId}
  {out : Directory × List Broadcast}

theorem Each.matches (like : ∀ d id out, step d id out → Matches out (step' d id))
    (h : Each step d ids out) : Matches out (forEach step' d ids) := by
  induction h with
  | rest d => exact .refl _
  | @next d d' d'' id ids bs bs' first later ih =>
    obtain ⟨same, alike⟩ := like d id _ first
    change d' = (step' d id).1 at same
    subst same
    exact ⟨ih.1, alike.append ih.2⟩

theorem each_forEach (goes : ∀ d id, step d id (step' d id)) (d : Directory) (ids : List NodeId) :
    Each step d ids (forEach step' d ids) := by
  induction ids generalizing d with
  | nil => exact .rest d
  | cons id ids ih => exact .next (goes d id) (ih (step' d id).1)

theorem Each.removes {now : Nat} {c : ConnId} {tokens : NodeId → Token} (nodup : ids.Nodup)
    (right : ∀ id ∈ ids, ∀ g, d.groups[id]? = some g → tokens id = g.token)
    (h : Each (fun d id => Leaves now c d ⟨id, tokens id⟩) d ids out) :
    Each (RemovesMember now c) d ids out := by
  induction h with
  | rest d => exact .rest d
  | @next d d' d'' id ids bs bs' first later ih =>
    obtain ⟨new, nodup⟩ := List.nodup_cons.mp nodup
    have removed := first.removes (right id List.mem_cons_self)
    refine .next removed (ih nodup fun k mem g group => ?_)
    have other : k ≠ id := fun same => new (same ▸ mem)
    have same : d' = (d.removeMember now c id).1 := removed.matches.1
    rw [same, removeMember_others d now c id other] at group
    exact right k (List.mem_cons_of_mem id mem) g group

end

section
variable (d : Directory) (now : Nat) (c : ConnId)

theorem close_closes (id : NodeId) (g : Group) : Closes d id g (d.close id g) := by
  have visit : Closes d id g _ := .visit (.refl g.points.toList) (like_self _)
  rw [Group.cancelEach_eq (.refl _)] at visit
  exact visit

theorem closeGroup_closes (id : NodeId) : ClosesGroup d id (d.closeGroup id) := by
  unfold closeGroup
  cases group : d.groups[id]? with
  | none => exact .none group
  | some g => exact .some group (close_closes d id g)

theorem removeMember_removes (id : NodeId) :
    RemovesMember now c d id (d.removeMember now c id) := by
  unfold removeMember
  cases group : d.groups[id]? with
  | none => exact .nobody (member?_of_absent group)
  | some g =>
    dsimp only
    split
    · rename_i present
      split
      · rename_i last
        exact .last group present last (close_closes d id _)
      · rename_i others
        have part : RemovesMember now c d id _ :=
          .part group present (Bool.not_eq_true _ ▸ others) (.refl _) (like_self _)
        rw [Group.departEach_eq (.refl _), ← Group.announce_departed] at part
        exact part
    · rename_i stranger
      exact .nobody (member?_of_stranger group (Bool.not_eq_true _ ▸ stranger))

theorem leave_leaves (ref : GroupRef) :
    Leaves now c d ref ((d.leave now c ref).directory, (d.leave now c ref).broadcasts) := by
  unfold leave
  cases group : d.groups[ref.id]? with
  | none => exact .refuse fun g here => nomatch group.symm.trans here
  | some g =>
    dsimp only
    split
    · rename_i accepted
      exact .remove group accepted (removeMember_removes d now c ref.id)
    · rename_i stranger
      refine .refuse fun g' here => ?_
      obtain rfl := Option.some.inj (group.symm.trans here)
      exact Bool.not_eq_true _ ▸ stranger

end

def groupsOf (d : Directory) (c : ConnId) : List NodeId :=
  (d.groups.filter fun _ g => g.members.contains c).keys

def idleGroups (d : Directory) (policy : Policy) (now : Nat) : List NodeId :=
  (d.groups.filter fun _ g => policy.idleTimeout < now - g.lastActivity).keys

/-- A lost connection may be taken out of its groups in any order, whatever the order in which
their sync points, members and arrivals are visited. What is left is the same, with the same agenda,
and so are the packets, which only change places between groups, sync points or receivers. The same
comes of it when the connection leaves its groups in any order with their tokens. Idle groups may be
closed in any order. -/
theorem visiting_order_irrelevant (d : Directory) (policy : Policy) (now : Nat) (c : ConnId) :
    (∀ ids : List NodeId, ids.Perm (d.groupsOf c) →
      Each (RemovesMember now c) d ids (forEach (fun d id => d.removeMember now c id) d ids) ∧
        ∀ out, Each (RemovesMember now c) d ids out → Matches out (d.removeConnection now c)) ∧
    (∀ (ids : List NodeId) (tokens : NodeId → Token), ids.Perm (d.groupsOf c) →
      (∀ id ∈ ids, ∀ g, d.groups[id]? = some g → tokens id = g.token) →
        Each (fun d id => Leaves now c d ⟨id, tokens id⟩) d ids
          (forEach (fun d id => d.act policy now (.leave c ⟨id, tokens id⟩)) d ids) ∧
        ∀ out, Each (fun d id => Leaves now c d ⟨id, tokens id⟩) d ids out →
          Matches out (d.removeConnection now c)) ∧
    ∀ ids : List NodeId, ids.Perm (d.idleGroups policy now) →
      Each ClosesGroup d ids (forEach closeGroup d ids) ∧
        ∀ out, Each ClosesGroup d ids out → Matches out (d.housekeeping policy now) := by
  have removed : ∀ ids, ids.Perm (d.groupsOf c) → ∀ out, Each (RemovesMember now c) d ids out →
      Matches out (d.removeConnection now c) := by
    intro ids perm out each
    have visits : Matches out (forEach (fun d id => d.removeMember now c id) d ids) :=
      each.matches fun d id out removes => removes.matches
    exact visits.trans ((removeMember_local now c).forEach_perm perm d)
  refine ⟨fun ids perm => ⟨?_, removed ids perm⟩, fun ids tokens perm right => ⟨?_, ?_⟩,
    fun ids perm => ⟨?_, fun out each => ?_⟩⟩
  · exact each_forEach (fun d id => removeMember_removes d now c id) d ids
  · exact each_forEach (fun d id => leave_leaves d now c ⟨id, tokens id⟩) d ids
  · have nodup : ids.Nodup := perm.nodup_iff.mpr Std.ExtTreeMap.nodup_keys
    exact fun out each => removed ids perm out (each.removes nodup right)
  · exact each_forEach closeGroup_closes d ids
  · have visits : Matches out (forEach closeGroup d ids) :=
      each.matches fun d id out closes => closes.matches
    exact visits.trans (closeGroup_local.forEach_perm perm d)

/-- A connection is in two groups, in one of them alone; both have a sync point. -/
def sampleCrossing : List (Nat × Action) :=
  [(0, .sync 1 sampleNeighbour sampleTerms), (0, .sync 1 sampleRef sampleTerms),
    (0, .join 2 sampleMember sampleNeighbour), (0, .join 1 sampleMember sampleNeighbour),
    (0, .join 1 sampleMember sampleRef)]

theorem visiting_order_irrelevant_of_two :
    let d := (play ⟨3, 5⟩ sampleCrossing).2
    let ids := [sampleNeighbour.id, sampleRef.id]
    let tokens : NodeId → Token := fun id =>
      if id = sampleRef.id then sampleRef.token else sampleNeighbour.token
    Matches (forEach (fun d id => d.removeMember 10 1 id) d ids) (d.removeConnection 10 1) ∧
      Matches (forEach (fun d id => d.act ⟨3, 5⟩ 10 (.leave 1 ⟨id, tokens id⟩)) d ids)
        (d.removeConnection 10 1) ∧
      Matches (forEach closeGroup d ids) (d.housekeeping ⟨3, 5⟩ 10) := by
  intro d ids tokens
  obtain ⟨removals, leaves, closings⟩ := visiting_order_irrelevant d ⟨3, 5⟩ 10 1
  have perm : ids.Perm (d.groupsOf 1) := by decide +kernel
  have idle : ids.Perm (d.idleGroups ⟨3, 5⟩ 10) := by decide +kernel
  have right : ∀ id ∈ ids, ∀ g, d.groups[id]? = some g → tokens id = g.token := by
    have known : ∀ id ∈ ids, (d.groups[id]?.map Group.token) = some (tokens id) := by
      decide +kernel
    intro id mem g group
    have token := known id mem
    rw [group] at token
    exact (Option.some.inj token).symm
  obtain ⟨goes, matched⟩ := removals ids perm
  obtain ⟨goes', matched'⟩ := leaves ids tokens perm right
  obtain ⟨goes'', matched''⟩ := closings ids idle
  exact ⟨matched _ goes, matched' _ goes', matched'' _ goes''⟩

end Directory
end Muster
