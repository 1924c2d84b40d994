import Muster.Proofs.Client.Words
import Muster.Proofs.Directory.GroupStep

/-! Who is told when the members of a group change. Every member learns who is left, except
for the one that has left: it is told nothing but the answer to its request. -/
namespace Muster

theorem Members.mem_ids {m : Members} {c : ConnId} {name : NodeId} (h : m[c]? = some name) :
    name ∈ m.ids := by
  unfold ids NodeId.sort
  rw [List.mem_mergeSort]
  exact Table.mem_values.mpr ⟨c, h⟩

theorem Members.mem_connections {m : Members} {c : ConnId} :
    c ∈ m.connections ↔ ∃ name, m[c]? = some name :=
  Table.mem_keys_iff

/-- The members, for a connection that is one of them and names the group's token. -/
def Group.roster (g : Group) (c : ConnId) (token : Token) : Roster :=
  if g.accepts c token then some (.ofList g.members.ids) else none

def Group.Names (g : Group) (c : ConnId) (own : NodeId) : Prop :=
  ∀ name, g.members[c]? = some name → name = own

namespace Directory

def roster (d : Directory) (c : ConnId) (ref : GroupRef) : Roster :=
  d.groups[ref.id]?.bind fun g => g.roster c ref.token

def Names (d : Directory) (id : NodeId) (c : ConnId) (own : NodeId) : Prop :=
  ∀ g ∈ d.groups[id]?, g.Names c own

end Directory

section
variable {g : Group} {c : ConnId} {token : Token}

theorem Group.roster_of_member {name : NodeId} (present : g.members[c]? = some name) :
    g.roster c g.token = some (.ofList g.members.ids) := by
  unfold roster accepts
  rw [Table.contains_of_getElem? present, beq_self_eq_true, Bool.and_true, if_pos rfl]

theorem Group.roster_of_absent (absent : g.members[c]? = none) : g.roster c token = none := by
  unfold roster accepts
  have no : g.members.contains c = false := by
    rw [Std.ExtTreeMap.contains_eq_isSome_getElem?, absent]
    rfl
  rw [no, Bool.and_false]
  rfl

theorem Group.roster_of_other (other : g.token ≠ token) : g.roster c token = none := by
  unfold roster accepts
  rw [beq_eq_false_iff_ne.mpr other, Bool.false_and]
  rfl

theorem Directory.roster_eq_some_iff {d : Directory} {ref : GroupRef}
    {ids : Std.ExtTreeSet NodeId} : d.roster c ref = some ids ↔
      ∃ g, d.groups[ref.id]? = some g ∧ g.token = ref.token ∧ g.members.contains c ∧
        ids = .ofList g.members.ids := by
  unfold roster
  rw [Option.bind_eq_some_iff]
  constructor
  · rintro ⟨g, here, roster⟩
    unfold Group.roster Group.accepts at roster
    split at roster
    · rename_i accepts
      obtain ⟨token, member⟩ := (Bool.and_eq_true _ _).mp accepts
      exact ⟨g, here, eq_of_beq token, member, (Option.some.inj roster).symm⟩
    · contradiction
  · rintro ⟨g, here, token, member, rfl⟩
    obtain ⟨name, present⟩ := Table.contains_iff.mp member
    exact ⟨g, here, token ▸ Group.roster_of_member present⟩

end

def News.word (n : News) : Word := ⟨(n.message .null).body, false⟩

def wordsTo (bs : List Broadcast) (c : ConnId) : List Word :=
  bs.flatMap fun b => (b.receivers.filter fun k => k = c).map fun _ => b.news.word

section
variable {own : NodeId} {ref : GroupRef} {bs : List Broadcast} {c : ConnId} {r : Roster}

theorem wordsTo_append (bs bs' : List Broadcast) (c : ConnId) :
    wordsTo (bs ++ bs') c = wordsTo bs c ++ wordsTo bs' c :=
  List.flatMap_append

theorem mem_wordsTo {w : Word} (mem : w ∈ wordsTo bs c) :
    ∃ b ∈ bs, c ∈ b.receivers ∧ w = b.news.word := by
  obtain ⟨b, hb, mem⟩ := List.mem_flatMap.mp mem
  obtain ⟨k, chosen, rfl⟩ := List.mem_map.mp mem
  obtain ⟨told, eq⟩ := List.mem_filter.mp chosen
  obtain rfl := of_decide_eq_true eq
  exact ⟨b, hb, told, rfl⟩

/-- Only news of the members of this group, by its token, change a belief. -/
theorem News.word_turns {n : News} {v v' : Roster} (turns : n.word.Turns own ref v v')
    (other : ∀ ids code, n ≠ .membership ref ids code) : v' = v := by
  cases n with
  | membership about ids code =>
    apply Word.turns_of_other _ turns
    intro eq
    obtain rfl : about = ref := Option.some.inj eq
    exact other ids code rfl
  | progress about point generation arrived code => exact turns

theorem silent_of_news (h : ∀ b ∈ bs, c ∈ b.receivers → ∀ ids code,
    b.news ≠ .membership ref ids code) : Silent own ref (wordsTo bs c) := by
  apply Silent.of_forall
  intro w mem v v' turns
  obtain ⟨b, hb, told, rfl⟩ := mem_wordsTo mem
  exact News.word_turns turns (h b hb told)

theorem silent_of_others (h : ∀ b ∈ bs, b.news.group.id ≠ ref.id) :
    Silent own ref (wordsTo bs c) := by
  apply silent_of_news
  intro b hb _ ids code eq
  apply h b hb
  rw [eq]
  rfl

theorem tells_of_notice {ids : List NodeId} {code : MembershipCode} {receivers : List ConnId}
    (told : c ∈ receivers)
    (all : (if code ≠ .close ∧ own ∈ ids then some (.ofList ids) else none) = r) :
    Tells own ref (wordsTo [⟨receivers, .membership ref ids code⟩] c) r := by
  apply Tells.of_forall
  · intro w mem v v' turns
    obtain ⟨b, hb, -, rfl⟩ := mem_wordsTo mem
    obtain rfl := List.mem_singleton.mp hb
    have turns : v' = if ref = ref then _ else v := turns
    rw [turns, if_pos rfl, all]
  · have mem : c ∈ receivers.filter fun k => k = c :=
      List.mem_filter.mpr ⟨told, decide_eq_true rfl⟩
    unfold wordsTo
    rw [List.flatMap_singleton]
    intro none
    rw [List.map_eq_nil_iff.mp none] at mem
    exact nomatch mem

end

namespace Directory

/-- How a connection learns of a change: it is told how things are, or nothing has changed for
it, or it has left. -/
inductive Learns (own : NodeId) (ref : GroupRef) (left : Prop) (ws : List Word)
    (r r' : Roster) : Prop where
  | told (tells : Tells own ref ws r')
  | same (silent : Silent own ref ws) (eq : r' = r)
  | left (silent : Silent own ref ws) (gone : r' = none) (asked : left)

section
variable {d : Directory} {policy : Policy} {now : Nat} {a : Action} {id : NodeId}
  {s s' : Option Group} {bs : List Broadcast} {c : ConnId} {own : NodeId} {token : Token}

theorem progress_silent {xs : List Broadcast} (progress : ∀ b ∈ xs, ∃ g name p code,
    b = Group.announceProgress g id name p code) :
    Silent own ⟨id, token⟩ (wordsTo xs c) := by
  apply silent_of_news
  intro b hb _ ids code eq
  obtain ⟨g, name, p, code, rfl⟩ := progress b hb
  exact nomatch eq

theorem learns_of_notice {g : Group} {ids : List NodeId} {code : MembershipCode} {r r' : Roster}
    {left : Prop}
    (present : ∀ name, g.members[c]? = some name → g.token = token →
      (if code ≠ .close ∧ own ∈ ids then some (.ofList ids) else none) = r')
    (absent : g.members[c]? = none → g.token = token → r' = r ∨ r' = none ∧ left)
    (other : g.token ≠ token → r' = r) :
    Learns own ⟨id, token⟩ left
      (wordsTo [⟨g.members.connections, .membership ⟨id, g.token⟩ ids code⟩] c) r r' := by
  by_cases eq : g.token = token
  · subst eq
    cases member : g.members[c]? with
    | some name =>
      have told := Members.mem_connections.mpr ⟨name, member⟩
      exact .told (tells_of_notice told (present name member rfl))
    | none =>
      have silent : Silent own ⟨id, g.token⟩
          (wordsTo [⟨g.members.connections, .membership ⟨id, g.token⟩ ids code⟩] c) := by
        apply silent_of_news
        intro b hb told
        obtain rfl := List.mem_singleton.mp hb
        obtain ⟨name, member'⟩ := Members.mem_connections.mp told
        exact nomatch member.symm.trans member'
      obtain same | ⟨gone, asked⟩ := absent member rfl
      · exact .same silent same
      · exact .left silent gone asked
  · apply Learns.same _ (other eq)
    apply silent_of_news
    intro b hb _ ids code eq'
    obtain rfl := List.mem_singleton.mp hb
    obtain ⟨ref, -⟩ := News.membership.inj eq'
    exact eq (congrArg GroupRef.token ref)

/-- A change of the members that all members after it are told of. -/
theorem learns_of_announce {g : Group} {r : Roster} {left : Prop} {code : MembershipCode}
    (named : g.Names c own) (shut : code ≠ .close)
    (before : g.members[c]? = none → g.token = token → r = none ∨ left)
    (other : g.token ≠ token → r = none) :
    Learns own ⟨id, token⟩ left (wordsTo [g.announceMembers id code] c) r (g.roster c token) := by
  apply learns_of_notice
  · rintro name present rfl
    rw [Group.roster_of_member present]
    obtain rfl := named name present
    exact if_pos ⟨shut, Members.mem_ids present⟩
  · intro absent same
    rw [Group.roster_of_absent absent]
    obtain none | asked := before absent same
    · exact .inl none.symm
    · exact .inr ⟨rfl, asked⟩
  · intro ne
    rw [Group.roster_of_other ne, other ne]

theorem Learns.prepend {left : Prop} {ws ws' : List Word} {r r' : Roster} {ref : GroupRef}
    (learns : Learns own ref left ws' r r') (silent : Silent own ref ws) :
    Learns own ref left (ws ++ ws') r r' := by
  cases learns with
  | told tells => exact .told (tells.append ws)
  | same silent' eq => exact .same (silent.append silent') eq
  | left silent' gone asked => exact .left (silent.append silent') gone asked

/-- A group that closes tells those who still are members. -/
theorem learns_of_farewell {g : Group} {r : Roster} {left : Prop}
    (absent : g.members[c]? = none → g.token = token → r = none ∨ left)
    (other : g.token ≠ token → r = none) :
    Learns own ⟨id, token⟩ left (wordsTo (g.farewell id) c) r none := by
  unfold Group.farewell
  rw [wordsTo_append]
  apply Learns.prepend
  · apply learns_of_notice
    · exact fun name present same => if_neg fun closed => closed.1 rfl
    · intro missing same
      obtain none | asked := absent missing same
      · exact .inl none.symm
      · exact .inr ⟨rfl, asked⟩
    · exact fun ne => (other ne).symm
  · apply progress_silent
    intro b hb
    obtain ⟨⟨name, p⟩, -, rfl⟩ := List.mem_map.mp hb
    exact ⟨g, name, p, .close, rfl⟩

/-- A connection learns of everything that happens to its membership, except that it leaves at
its own request. -/
theorem GroupStep.learns (step : GroupStep d policy now a id s s' bs)
    (named : ∀ g ∈ s', g.Names c own) :
    Learns own ⟨id, token⟩ (a.Removes c ⟨id, token⟩) (wordsTo bs c)
      (s.bind fun g => g.roster c token) (s'.bind fun g => g.roster c token) := by
  have progress (g g' : Group) (name : NodeId) (p : SyncPoint) (code : ProgressCode)
      (eq : g'.roster c token = g.roster c token) :
      Learns own ⟨id, token⟩ (a.Removes c ⟨id, token⟩)
        (wordsTo [g.announceProgress id name p code] c) (g.roster c token) (g'.roster c token) := by
    apply Learns.same _ eq
    apply progress_silent
    intro b hb
    exact ⟨g, name, p, code, List.mem_singleton.mp hb⟩
  cases step with
  | same => exact .same .nil rfl
  | refresh action => exact .same .nil rfl
  | found action full => exact .same .nil (Group.roster_of_absent (by simp [Group.create]))
  | @enter s g c' member action group absent room =>
    have named : Group.Names { g with members := g.members.insert c' member } c own :=
      fun name present => named _ rfl name present
    refine learns_of_announce named (by decide) ?_ ?_
    · intro missing _
      left
      have missing : (g.members.insert c' member)[c]? = none := missing
      rw [Table.getElem?_insert] at missing
      split at missing
      · contradiction
      · cases s with
        | none => rfl
        | some g' =>
          obtain rfl : g' = g := group
          exact Group.roster_of_absent missing
    · intro other
      cases s with
      | none => rfl
      | some g' =>
        obtain rfl : g' = g := group
        exact Group.roster_of_other other
  | create number event action present fresh point answer => exact progress _ _ _ _ _ rfl
  | arrive event action present point missing waiting answer => exact progress _ _ _ _ _ rfl
  | @part g c' member action present others =>
    have named : Group.Names { g with members := g.members.erase c' } c own :=
      fun name present => named _ rfl name present
    rw [wordsTo_append]
    apply Learns.prepend
    · refine learns_of_announce named (by decide) ?_ fun other =>
        Group.roster_of_other (g := g) other
      intro missing same
      have missing : (g.members.erase c')[c]? = none := missing
      by_cases own : c' = c
      · subst own
        obtain rfl : g.token = token := same
        exact .inr action
      · rw [Table.getElem?_erase, if_neg own] at missing
        exact .inl (Group.roster_of_absent missing)
    · apply progress_silent
      intro b hb
      obtain ⟨⟨name, p⟩, -, rfl⟩ := List.mem_map.mp hb
      exact ⟨g, name, p, .leave, rfl⟩
  | @dissolve g c' member action present last =>
    refine learns_of_farewell ?_ fun other => Group.roster_of_other (g := g) other
    intro missing same
    have missing : (g.members.erase c')[c]? = none := missing
    by_cases own : c' = c
    · subst own
      obtain rfl : g.token = token := same
      exact .inr action
    · rw [Table.getElem?_erase, if_neg own] at missing
      exact .inl (Group.roster_of_absent missing)
  | expire action idle =>
    exact learns_of_farewell (fun missing _ => .inl (Group.roster_of_absent missing))
      Group.roster_of_other
  | resolve action point => exact progress _ _ _ _ _ rfl

theorem GroupStep.names (step : GroupStep d policy now a id s s' bs)
    (named : ∀ g ∈ s, g.Names c own) (joins : ∀ member ref, a = .join c member ref → member = own) :
    ∀ g ∈ s', g.Names c own := by
  rintro g' rfl name present
  rcases step.member_source present with ⟨g, before, present⟩ | ⟨token, action⟩
  · exact named g before name present
  · exact joins name _ action

theorem act_names (named : d.Names id c own)
    (joins : ∀ member ref, a = .join c member ref → member = own) :
    (d.act policy now a).1.Names id c own :=
  (act_covers d policy now a id).names named joins

theorem leads_report {ref : GroupRef} {bs : List Broadcast} {v v' : Roster}
    (leads : Leads own ref (wordsTo bs c) v v') :
    Leads own ref (wordsTo (report bs ref.id) c) v v' := by
  induction bs generalizing v with
  | nil => exact leads
  | cons b bs ih =>
    have split := wordsTo_append [b] bs c
    obtain ⟨u, first, rest⟩ := leads_append.mp (split ▸ leads)
    by_cases about : b.news.group.id = ref.id
    · have kept : report (b :: bs) ref.id = [b] ++ report bs ref.id :=
        List.filter_cons_of_pos (decide_eq_true about)
      rw [kept, wordsTo_append]
      exact leads_append.mpr ⟨u, first, ih rest⟩
    · have dropped : report (b :: bs) ref.id = report bs ref.id :=
        List.filter_cons_of_neg (by simpa using about)
      have silent : Silent own ref (wordsTo [b] c) := by
        apply silent_of_others
        intro b' mem
        obtain rfl := List.mem_singleton.mp mem
        exact about
      obtain rfl := silent v u first
      rw [dropped]
      exact ih rest

theorem act_learns {ref : GroupRef} (named : (d.act policy now a).1.Names ref.id c own) :
    Learns own ref (a.Removes c ref) (wordsTo (d.act policy now a).2 c) (d.roster c ref)
      ((d.act policy now a).1.roster c ref) := by
  have learns : Learns own ref (a.Removes c ref)
      (wordsTo (report (d.act policy now a).2 ref.id) c) (d.roster c ref)
      ((d.act policy now a).1.roster c ref) := (act_covers d policy now a ref.id).learns named
  cases learns with
  | told tells => exact .told fun v v' leads => tells v v' (leads_report leads)
  | same silent eq => exact .same (fun v v' leads => silent v v' (leads_report leads)) eq
  | left silent gone asked =>
    exact .left (fun v v' leads => silent v v' (leads_report leads)) gone asked

theorem Learns.settles {ref : GroupRef} {left : Prop} {ws : List Word} {r r' : Roster}
    (learns : Learns own ref left ws r r') (stays : ¬left) : Settles own ref ws r r' := by
  cases learns with
  | told tells => exact tells r
  | same silent eq =>
    rw [eq]
    exact silent r
  | left silent gone asked => exact absurd asked stays

/-- Timed events end no membership without telling. -/
theorem fireMany_learns {ref : GroupRef} (policy : Policy) (now fuel : Nat)
    (named : d.Names ref.id c own) :
    Settles own ref (wordsTo ((fireMany policy now fuel d).1.flatMap Prod.snd) c) (d.roster c ref)
        ((fireMany policy now fuel d).2.roster c ref) ∧
      (fireMany policy now fuel d).2.Names ref.id c own := by
  induction fuel generalizing d with
  | zero => exact ⟨Silent.nil _, named⟩
  | succ fuel ih =>
    rw [fireMany_succ]
    cases popped : d.agenda.pop? now with
    | none => exact ⟨Silent.nil _, named⟩
    | some x =>
      obtain ⟨event, agenda⟩ := x
      have fired : d.act policy now .fire = { d with agenda }.handle policy now event := by
        simp only [Directory.act, fire, popped]
      have named' : (d.act policy now .fire).1.Names ref.id c own :=
        act_names named fun _ _ joins => Action.noConfusion joins
      have stays : ¬Action.Removes .fire c ref := by
        rintro (leaves | lost)
        · contradiction
        · contradiction
      have first := (act_learns named').settles stays
      obtain ⟨rest, named''⟩ := ih named'
      rw [fired] at first rest named''
      refine ⟨?_, named''⟩
      rw [List.flatMap_cons, wordsTo_append]
      exact first.append rest

theorem fireDue_learns {ref : GroupRef} (policy : Policy) (now : Nat)
    (named : d.Names ref.id c own) :
    Settles own ref (wordsTo ((d.fireDue policy now).1.flatMap Prod.snd) c) (d.roster c ref)
        ((d.fireDue policy now).2.roster c ref) ∧
      (d.fireDue policy now).2.Names ref.id c own :=
  fireMany_learns policy now d.agenda.size named

theorem leave_roster (d : Directory) (now : Nat) (c : ConnId) (ref : GroupRef) :
    (d.leave now c ref).directory.roster c ref = none ∧
      (d.roster c ref ≠ none →
        ∀ g ∈ (d.leave now c ref).directory.groups[ref.id]?, g.members.contains c = false) := by
  unfold leave roster
  cases here : d.groups[ref.id]? with
  | none =>
    dsimp only
    rw [here]
    exact ⟨rfl, fun member => absurd rfl member⟩
  | some g =>
    dsimp only
    cases accepts : g.accepts c ref.token with
    | false =>
      rw [if_neg Bool.false_ne_true]
      dsimp only
      rw [here]
      have none : g.roster c ref.token = none := by
        unfold Group.roster
        rw [accepts, if_neg Bool.false_ne_true]
      exact ⟨none, fun member => absurd none member⟩
    | true =>
      rw [if_pos rfl]
      obtain ⟨-, present⟩ := (Bool.and_eq_true _ _).mp accepts
      dsimp only
      unfold removeMember
      rw [here]
      dsimp only
      rw [if_pos present]
      split
      · rw [close_groups, if_pos rfl]
        exact ⟨rfl, fun _ => nofun⟩
      · rw [setGroup_groups, if_pos rfl]
        have absent : (g.members.erase c)[c]? = none := by
          rw [Table.getElem?_erase, if_pos rfl]
        refine ⟨Group.roster_of_absent absent, fun _ g' here' => ?_⟩
        obtain rfl := Option.some.inj here'
        show (g.members.erase c).contains c = false
        rw [Std.ExtTreeMap.contains_eq_isSome_getElem?, absent]
        rfl

theorem join_present (d : Directory) (policy : Policy) (now : Nat) (c : ConnId) (member : NodeId)
    (ref : GroupRef) (accepted : (d.join policy now c member ref).answer = .accepted) :
    ∃ g name, (d.join policy now c member ref).directory.groups[ref.id]? = some g ∧
      g.token = ref.token ∧ g.members[c]? = some name := by
  unfold join at accepted ⊢
  dsimp only at accepted ⊢
  split at accepted
  · contradiction
  · rename_i same
    rw [if_neg same]
    have same := of_not_not same
    split at accepted
    · rename_i present
      obtain ⟨name, present'⟩ := Table.contains_iff.mp present
      rw [if_pos present]
      exact ⟨_, name, (setGroup_groups ..).trans (if_pos rfl), same, present'⟩
    · rename_i absent
      rw [if_neg absent]
      split at accepted
      · contradiction
      · rename_i room
        rw [if_neg room]
        refine ⟨_, member, (setGroup_groups ..).trans (if_pos rfl), same, ?_⟩
        exact (Table.getElem?_insert ..).trans (if_pos rfl)

end
end Directory
end Muster
