import Muster.Proofs.Network.Basic
import Muster.Proofs.Server.Success

/-! What the server writes to its clients. A client takes in packets in the order in which the
server has written them, in earlier steps of the history. -/
namespace Muster

def Handed.incoming (x : Handed) : Incoming := ⟨x.delivery.packet, x.origin⟩

namespace Peer
variable {p : Peer}

/-- The packets that have come from the server and were not dropped, in their order. -/
def stream (p : Peer) : List Incoming :=
  (p.heard.reverse ++ p.inbox).map Handed.incoming ++ p.toClient

theorem stream_register (id : NodeId) (config : ClientConfig) (numbering : Numbering) :
    (register id config numbering).stream = [] := rfl

theorem stream_ask (p : Peer) (now : Nat) (a : Ask) : (p.ask now a).stream = p.stream := by
  unfold ask
  split <;> rfl

theorem stream_advance (p : Peer) (now : Nat) (numbering : Numbering) (j : Nat) :
    (p.advance now numbering j).stream = p.stream := by
  obtain same | ⟨job, m, c, c', s', -, -, -, -, eq⟩ := p.advance_cases now numbering j
  · rw [same]
  · rw [eq]
    rfl

theorem stream_correlate (p : Peer) : p.correlate.stream.Sublist p.stream := by
  obtain same | ⟨x, rest, link, delivery, pending, next, -, run, eq⟩ := p.correlate_cases
  · rw [same]
  · rw [eq]
    unfold stream
    rw [next]
    cases delivery with
    | none =>
      simp
    | some d =>
      obtain ⟨packet, -⟩ := (Pending.pass_cases run).2 d rfl
      have same : Handed.incoming ⟨d, x.origin⟩ = x := by
        unfold Handed.incoming
        rw [packet]
      simp [same]

theorem stream_dispatch (p : Peer) : p.dispatch.stream = p.stream := by
  cases next : p.inbox with
  | nil => rw [dispatch_nil next]
  | cons x rest =>
    obtain ⟨taking, -, eq⟩ | ⟨client, -, eq⟩ := dispatch_cases next
    · rw [eq]
      rfl
    · rw [eq]
      unfold stream
      simp [next]

theorem stream_tearDown (p : Peer) : p.tearDown.stream.Sublist p.stream := by
  unfold tearDown stream
  dsimp only
  split
  · exact List.Sublist.refl _
  · simp

theorem stream_close (p : Peer) : p.close.stream.Sublist p.stream := by
  unfold close
  split
  · exact p.stream_tearDown
  · exact List.Sublist.refl _

theorem stream_arrive (p : Peer) (xs : List Incoming) :
    (p.arrive xs).stream.Sublist (p.stream ++ xs) := by
  unfold arrive
  split
  · unfold stream
    simp
  · exact List.sublist_append_left _ _

end Peer

namespace Network
variable {n : Network} {i : ConnId} {p : Peer} {past : List Episode}

/-- What the server does in a step, before it writes out its outbox. -/
def serverAction? (n : Network) : Action → Option Server.Action
  | .handle k => (n.peers[k]?.bind fun p => p.toServer.head?).map fun r =>
    .request k r.packet.seq r.packet.message
  | .expire => some .expire
  | .lose k =>
    match n.peers[k]?.bind fun p => p.client.link with
    | some _ => none
    | none => some (.lose k)
  | .connect .. | .ask .. | .advance .. | .correlate _ | .dispatch _ | .close _ => none

theorem expire_of_serverAction {a : Action} (acts : n.serverAction? a = some .expire) :
    a = .expire := by
  cases a with
  | expire => rfl
  | handle k =>
    obtain ⟨r, -, eq⟩ := Option.map_eq_some_iff.mp acts
    contradiction
  | lose k =>
    unfold serverAction? at acts
    dsimp only at acts
    split at acts <;> cases acts
  | connect | ask | advance | correlate | dispatch | close => cases acts

def origin? (n : Network) (now : Nat) : Action → Option Origin
  | .handle k => (n.peers[k]?.bind fun p => p.toServer.head?).map fun r =>
    ⟨r, removes n.server (n.server.handle now k r.packet.seq r.packet.message) k
      r.packet.message.body⟩
  | .expire | .lose _ | .connect .. | .ask .. | .advance .. | .correlate _ | .dispatch _
  | .close _ => none

def writes (n : Network) (now : Nat) (a : Action) (i : ConnId) : List Incoming :=
  match n.serverAction? a with
  | none => []
  | some b => arrivals (n.origin? now a) (n.server.act now b).outbox i

theorem writes_none {a : Action} (idle : n.serverAction? a = none) (now : Nat) (i : ConnId) :
    n.writes now a i = [] := by
  unfold writes
  rw [idle]

theorem writes_lose {k : ConnId} (gone : (n.peers[k]?.bind fun p => p.client.link) = none)
    (now : Nat) (i : ConnId) :
    n.writes now (.lose k) i = arrivals none (n.server.lose now k).outbox i := by
  simp only [writes, serverAction?, origin?, gone]
  rfl

theorem writes_handle {k : ConnId} {r : Request}
    (next : (n.peers[k]?.bind fun p => p.toServer.head?) = some r) (now : Nat) (i : ConnId) :
    n.writes now (.handle k) i = arrivals (some ⟨r, removes n.server
        (n.server.handle now k r.packet.seq r.packet.message) k r.packet.message.body⟩)
      (n.server.handle now k r.packet.seq r.packet.message).outbox i := by
  simp only [writes, serverAction?, origin?, next, Option.map_some]
  rfl

def Episode.writes (e : Episode) (i : ConnId) : List Incoming := e.before.writes e.now e.action i

/-- What a step does to the directory of the server, the last first. -/
def Episode.ledger (e : Episode) : List Directory.Episode :=
  match e.before.serverAction? e.action with
  | none => []
  | some b => e.before.server.ledger e.now b

def written (i : ConnId) : List Episode → List Incoming
  | [] => []
  | e :: past => written i past ++ e.writes i

theorem act_server (n : Network) (now : Nat) (a : Action) : (n.act now a).server =
    match n.serverAction? a with
    | none => n.server
    | some b => { n.server.act now b with outbox := [] } := by
  cases a with
  | handle k =>
    show (n.handle now k).server = _
    unfold handle serverAction?
    dsimp only
    cases n.peers[k]?.bind fun p => p.toServer.head? <;> rfl
  | lose k =>
    show (n.lose now k).server = _
    unfold lose serverAction?
    dsimp only
    cases n.peers[k]?.bind fun p => p.client.link <;> rfl
  | connect | ask | advance | correlate | dispatch | close | expire => rfl

/-- All that the server does is a part of the history of its directory. -/
theorem History.run (run : History past n) : ∃ config start,
    Directory.Run n.server.policy (past.flatMap Episode.ledger ++ [Server.opening config start])
      n.server.directory := by
  induction run with
  | start config token now numbering tokens =>
    exact ⟨config, now, .act now (.watch config.housekeepingInterval) .start⟩
  | @act past n run now a ih =>
    obtain ⟨config, start, ih⟩ := ih
    refine ⟨config, start, ?_⟩
    rw [List.flatMap_cons, List.append_assoc, act_server]
    unfold Episode.ledger
    cases n.serverAction? a with
    | none => exact ih
    | some b =>
      have same := (Server.SameLimits.act n.server now b).policy
      have next := Server.act_run ih now b
      rw [← same] at next
      exact next

theorem ledger_unforced (past : List Episode) (config : ServerConfig) (start : Nat) :
    Directory.Unforced (past.flatMap Episode.ledger ++ [Server.opening config start]) := by
  intro f mem
  rcases List.mem_append.mp mem with mem | mem
  · obtain ⟨e, -, mem⟩ := List.mem_flatMap.mp mem
    unfold Episode.ledger at mem
    split at mem
    · exact absurd mem List.not_mem_nil
    · exact (Server.ledger_action mem).2.1
  · obtain rfl := List.mem_singleton.mp mem
    rfl

/-- What a client has after a step, it had before or the server wrote it. -/
theorem act_stream (now : Nat) (a : Action) (here : (n.act now a).peers[i]? = some p) :
    p.stream = [] ∨ ∃ q, n.peers[i]? = some q ∧
      p.stream.Sublist (q.stream ++ n.writes now a i) := by
  have quiet {f : Peer → Peer} {k : ConnId} (silent : ∀ q : Peer, (f q).stream.Sublist q.stream)
      (here : (n.change k f).peers[i]? = some p) :
      ∃ q, n.peers[i]? = some q ∧ p.stream.Sublist (q.stream ++ []) := by
    rw [change_peers] at here
    split at here
    · obtain ⟨q, before, rfl⟩ := Option.map_eq_some_iff.mp here
      exact ⟨q, before, by simpa using silent q⟩
    · exact ⟨p, here, by simp⟩
  have heard {f : Peer → Peer} {k : ConnId} {server : Server}
      {origin : Option Origin} (silent : ∀ q : Peer, (f q).stream = q.stream)
      (here : ((n.change k f).deliver server origin).peers[i]? = some p) :
      ∃ q, n.peers[i]? = some q ∧
        p.stream.Sublist (q.stream ++ arrivals origin server.outbox i) := by
    rw [deliver_peers] at here
    obtain ⟨q', changed, rfl⟩ := Option.map_eq_some_iff.mp here
    rw [change_peers] at changed
    split at changed
    · obtain ⟨q, before, rfl⟩ := Option.map_eq_some_iff.mp changed
      have sub := (f q).stream_arrive (arrivals origin server.outbox i)
      rw [silent] at sub
      exact ⟨q, before, sub⟩
    · exact ⟨q', changed, q'.stream_arrive _⟩
  cases a with
  | connect id config numbering =>
    have here : (n.peers ++ [.register id config numbering])[i]? = some p := here
    rcases getElem?_append_cases here with here | rfl
    · exact .inr ⟨p, here, by simp⟩
    · exact .inl (Peer.stream_register id config numbering)
  | ask k a => exact .inr (quiet (fun q => (q.stream_ask now a).symm ▸ List.Sublist.refl _) here)
  | advance k j numbering =>
    exact .inr (quiet (fun q => (q.stream_advance now numbering j).symm ▸ List.Sublist.refl _) here)
  | correlate k => exact .inr (quiet (fun q => q.stream_correlate) here)
  | dispatch k => exact .inr (quiet (fun q => q.stream_dispatch.symm ▸ List.Sublist.refl _) here)
  | close k => exact .inr (quiet (fun q => q.stream_close) here)
  | expire =>
    right
    have here : (n.deliver (n.server.fireDue now) none).peers[i]? = some p := here
    rw [deliver_peers] at here
    obtain ⟨q, before, rfl⟩ := Option.map_eq_some_iff.mp here
    exact ⟨q, before, q.stream_arrive _⟩
  | lose k =>
    right
    have here : (n.lose now k).peers[i]? = some p := here
    unfold lose at here
    split at here
    · exact ⟨p, here, by simp⟩
    · rename_i gone
      rw [writes_lose gone]
      exact heard (f := Peer.hangUp) (fun q => rfl) here
  | handle k =>
    right
    have here : (n.handle now k).peers[i]? = some p := here
    unfold handle at here
    split at here
    · exact ⟨p, here, by simp⟩
    · rename_i next
      rw [writes_handle next]
      exact heard (f := Peer.serve) (fun q => rfl) here

/-- A client takes in what the server has written to it, in that order, or misses some of it. -/
theorem History.stream_written (run : History past n) (here : n.peers[i]? = some p) :
    p.stream.Sublist (written i past) := by
  induction run generalizing p with
  | start => exact nomatch here
  | @act past n run now a ih =>
    obtain none | ⟨q, before, sub⟩ := act_stream now a here
    · rw [none]
      exact List.nil_sublist _
    · exact sub.trans ((ih before).append_right _)

theorem mem_written {x : Incoming} (mem : x ∈ written i past) :
    ∃ later e earlier, past = later ++ e :: earlier ∧ x ∈ e.writes i := by
  induction past with
  | nil => exact absurd mem List.not_mem_nil
  | cons e past ih =>
    have mem : x ∈ written i past ++ e.writes i := mem
    rcases List.mem_append.mp mem with mem | mem
    · obtain ⟨later, f, earlier, rfl, inside⟩ := ih mem
      exact ⟨e :: later, f, earlier, rfl, inside⟩
    · exact ⟨[], e, past, rfl, mem⟩

theorem written_before {x y : Incoming} (order : [y, x].Sublist (written i past))
    (apart : ∀ e ∈ past, y ∈ e.writes i → x ∉ e.writes i) :
    ∃ later e between f earlier, past = later ++ e :: (between ++ f :: earlier) ∧
      x ∈ e.writes i ∧ y ∈ f.writes i := by
  induction past with
  | nil => exact nomatch List.sublist_nil.mp order
  | cons e past ih =>
    obtain ⟨first, second, split, before, last⟩ := List.sublist_append_iff.mp order
    have here := apart e List.mem_cons_self
    -- `first` is what of the two was written before this step.
    cases first with
    | nil =>
      rw [List.nil_append] at split
      rw [← split] at last
      have both := last.subset
      exact absurd (both (by simp)) (here (both (by simp)))
    | cons y' first =>
      rw [List.cons_append] at split
      obtain ⟨same, rest⟩ := List.cons.inj split
      subst same
      cases first with
      | nil =>
        rw [List.nil_append] at rest
        rw [← rest] at last
        have mem : y ∈ written i past := before.subset (by simp)
        obtain ⟨between, f, earlier, rfl, inside⟩ := mem_written mem
        exact ⟨[], e, between, f, earlier, rfl, last.subset (by simp), inside⟩
      | cons x' first =>
        rw [List.cons_append] at rest
        obtain ⟨same, none⟩ := List.cons.inj rest
        obtain ⟨rfl, rfl⟩ := List.append_eq_nil_iff.mp none.symm
        subst same
        obtain ⟨later, e', between, f, earlier, rfl, mem, mem'⟩ :=
          ih before fun f inside => apart f (List.mem_cons_of_mem e inside)
        exact ⟨e :: later, e', between, f, earlier, rfl, mem, mem'⟩

end Network
end Muster
