import Muster.Proofs.Network.Words
import Muster.Proofs.Server.Registration

/-! A client whose registration was accepted is known to the server by its name and token, and
all its requests carry this token, as long as the connection is up. -/
namespace Muster

/-- The agreement of a client and the server about the registration. -/
structure Enrolled (s : Server) (i : ConnId) (p : Peer) : Prop where
  /-- The registration is the first request, and nothing else is asked before the answer. -/
  asking (r : Request) (mem : r ∈ p.toServer) (name : NodeId)
    (body : r.packet.message.body = .registerRequest name) : p.toServer = [r] ∧
      name = p.client.id ∧ s.registrations[i]? = none ∧
      ∀ w ∈ p.words, ∀ token code, w.body ≠ .registerResponse token code
  told (w : Word) (mem : w ∈ p.words) (token : Token) (code : RegisterCode)
    (body : w.body = .registerResponse token code) :
    s.registrations[i]? = if code = .accepted then some ⟨p.client.id, token⟩ else none
  accepted (token : Token) (standing : p.client.standing = .accepted token) :
    s.registrations[i]? = some ⟨p.client.id, token⟩
  calling (job : Job) (mem : job ∈ p.jobs) : ∃ token, p.client.standing = .accepted token
  known (r : Request) (mem : r ∈ p.toServer)
    (other : ∀ name, r.packet.message.body ≠ .registerRequest name) :
    s.registrations[i]? = some ⟨p.client.id, r.packet.message.sender⟩
  drafts (job : Job) (mem : job ∈ p.jobs) (packet : Packet)
    (errand : job.errand = .drafted packet ∨ job.errand = .recorded packet) :
    s.registrations[i]? = some ⟨p.client.id, packet.message.sender⟩

namespace Enrolled
open Network
variable {s s' : Server} {i : ConnId} {p : Peer}

theorem authenticate (h : Enrolled s i p) {r : Request} (mem : r ∈ p.toServer)
    (other : ∀ name, r.packet.message.body ≠ .registerRequest name) :
    s.authenticate i r.packet.message.sender = some p.client.id := by
  unfold Server.authenticate
  rw [h.known r mem other]
  exact if_pos rfl

theorem register (new : s.registrations[i]? = none) {id : NodeId} {config : ClientConfig}
    {numbering : Numbering} (linked : (Peer.register id config numbering).client.link ≠ none) :
    Enrolled s i (.register id config numbering) := by
  obtain ⟨standing, own⟩ := Client.dial_up id config numbering .empty linked
  constructor
  case asking =>
    intro r mem name body
    obtain rfl := List.mem_singleton.mp mem
    exact ⟨rfl, (Body.registerRequest.inj body).symm.trans own.symm, new, fun w mem => nomatch mem⟩
  case told => exact fun w mem => nomatch mem
  case accepted => exact fun token accepted => nomatch standing.symm.trans accepted
  case calling => exact fun job mem => nomatch mem
  case known =>
    intro r mem other
    obtain rfl := List.mem_singleton.mp mem
    exact absurd rfl (other id)
  case drafts => exact fun job mem => nomatch mem

theorem ask (h : Enrolled s i p) (now : Nat) (a : Ask) : Enrolled s i (p.ask now a) := by
  unfold Peer.ask
  split
  · rename_i token c call standing run
    obtain ⟨free, idle, opened⟩ := a.call?_cases run
    have frame : c.standing = p.client.standing ∧ c.id = p.client.id := by
      obtain ⟨rfl, -⟩ | ⟨id, token, -, rfl, -⟩ := opened <;> exact ⟨rfl, rfl⟩
    obtain ⟨same, id⟩ := frame
    constructor
    case asking =>
      dsimp only
      rw [id]
      exact h.asking
    case told =>
      dsimp only
      rw [id]
      exact h.told
    case accepted =>
      dsimp only
      rw [id, same]
      exact h.accepted
    case calling => exact fun job mem => ⟨token, same.trans standing⟩
    case known =>
      dsimp only
      rw [id]
      exact h.known
    case drafts =>
      dsimp only
      rw [id]
      intro job mem packet errand
      rcases List.mem_append.mp mem with mem | mem
      · exact h.drafts job mem packet errand
      · obtain rfl := List.mem_singleton.mp mem
        have errand : call.stage.errand = .drafted packet ∨ call.stage.errand = .recorded packet :=
          errand
        rw [idle] at errand
        exact errand.elim nofun nofun
  · exact h

theorem advance (h : Enrolled s i p) (orderly : p.Orderly) (now : Nat) (numbering : Numbering)
    (j : Nat) : Enrolled s i (p.advance now numbering j) := by
  obtain same | ⟨job, m, c, c', s', here, client, record, step, eq⟩ :=
    p.advance_cases now numbering j
  · rw [same]
    exact h
  · rw [eq]
    have mem : job ∈ p.jobs := List.mem_of_getElem? here
    obtain ⟨token, standing⟩ := h.calling job mem
    have registered := h.accepted token standing
    have frame := step.frame_standing
    rw [client] at frame
    have standing' : (p.moveOn j job c' s').client.standing = p.client.standing := frame.1
    have id : (p.moveOn j job c' s').client.id = p.client.id := frame.2
    -- A call is under way, so the registration has been answered long ago.
    have answered (r : Request) (mem : r ∈ p.toServer) (name : NodeId) :
        r.packet.message.body ≠ .registerRequest name := by
      intro body
      obtain ⟨-, -, none, -⟩ := h.asking r mem name body
      rw [none] at registered
      contradiction
    have asks : job.call.stage.Asks m := by
      obtain ⟨m₀, found, asks⟩ := orderly.claims.known j job here
      rw [client] at record
      obtain rfl := Option.some.inj (record.symm.trans found)
      exact asks
    have cases {r : Request} (mem : r ∈ (p.moveOn j job c' s').toServer) :
        r ∈ p.toServer ∨ job.errand = .recorded r.packet := by
      rcases List.mem_append.mp mem with old | new
      · exact .inl old
      · have carries := orderly.claims.carries j job here
        exact .inr (Trail.sentBy_eq carries (Option.mem_toList.mp new)).2.1
    constructor
    case asking =>
      intro r mem name body
      obtain old | recorded := cases mem
      · exact absurd body (answered r old name)
      · obtain ⟨token, join | leave | ⟨terms, sync⟩⟩ := asks.body (.inr recorded)
        · exact nomatch join.symm.trans body
        · exact nomatch leave.symm.trans body
        · exact nomatch sync.symm.trans body
    case told =>
      rw [id]
      exact h.told
    case accepted =>
      rw [id, standing']
      exact h.accepted
    case calling => exact fun job' mem => ⟨token, standing'.trans standing⟩
    case known =>
      intro r mem' other
      rw [id]
      obtain old | recorded := cases mem'
      · exact h.known r old other
      · exact h.drafts job mem r.packet (.inr recorded)
    case drafts =>
      intro job' mem' packet errand
      rw [id]
      rcases List.mem_or_eq_of_mem_set mem' with old | rfl
      · exact h.drafts job' old packet errand
      · obtain before | sender := step.sender errand
        · exact h.drafts job mem packet (.inl before)
        · have own : c.token = token := by
            rw [client]
            unfold Client.token
            rw [standing]
          rw [sender, own]
          exact registered

theorem correlate (h : Enrolled s i p) : Enrolled s i p.correlate := by
  obtain ⟨⟨link, client⟩, toServer, jobs, -⟩ := p.correlate_frame
  have words (w : Word) (mem : w ∈ p.correlate.words) : w ∈ p.words := by
    obtain same | ⟨x, rest, next, -, -, eq⟩ := p.words_correlate
    · rw [same] at mem
      exact mem
    · rw [eq] at mem
      unfold Peer.words
      rw [next, List.map_cons]
      rcases List.mem_append.mp mem with mem | mem
      · exact List.mem_append_left _ mem
      · exact List.mem_append_right _ (List.mem_cons_of_mem _ mem)
  constructor
  case asking =>
    rw [toServer, client]
    intro r mem name body
    obtain ⟨alone, own, none, silent⟩ := h.asking r mem name body
    exact ⟨alone, own, none, fun w mem => silent w (words w mem)⟩
  case told =>
    rw [client]
    exact fun w mem => h.told w (words w mem)
  case accepted =>
    rw [client]
    exact h.accepted
  case calling =>
    rw [jobs, client]
    exact h.calling
  case known =>
    rw [toServer, client]
    exact h.known
  case drafts =>
    rw [jobs, client]
    exact h.drafts

/-- The answer to the registration says what the server has made of it. -/
theorem standing_dispatch (h : Enrolled s i p) {x : Handed} {rest : List Handed}
    (next : p.inbox = x :: rest) : p.dispatch.client.standing = p.client.standing ∨
      ∃ token code, p.dispatch.client.standing =
          (if code = .accepted then .accepted token else .rejected code) ∧
        s.registrations[i]? = if code = .accepted then some ⟨p.client.id, token⟩ else none := by
  obtain ⟨-, -, same, -⟩ | ⟨step, split⟩ := Peer.words_dispatch next
  · rw [same]
    exact .inl rfl
  · generalize p.dispatch.client = c at step ⊢
    generalize p.taking = taking at step
    cases step with
    | untold untold =>
      obtain same | ⟨token, code, body, eq⟩ := Client.receive_of_none (c := p.client) untold
      · rw [same]
        exact .inl rfl
      · right
        refine ⟨token, code, ?_, ?_⟩
        · rw [eq]
          unfold Client.registerAnswered
          split <;> rfl
        · apply h.told x.word _ token code body
          rw [split]
          exact List.mem_cons_self
    | unknown | miss | change => exact .inl rfl

theorem dispatch (h : Enrolled s i p) : Enrolled s i p.dispatch := by
  cases next : p.inbox with
  | nil =>
    rw [Peer.dispatch_nil next]
    exact h
  | cons x rest =>
    obtain ⟨toServer, -, jobs, -, id⟩ := p.dispatch_frame
    have standing := h.standing_dispatch next
    have words (w : Word) (mem : w ∈ p.dispatch.words) : w ∈ p.words := by
      obtain ⟨-, -, -, same⟩ | ⟨-, split⟩ := Peer.words_dispatch next
      · exact same ▸ mem
      · rw [split]
        exact List.mem_cons_of_mem _ mem
    constructor
    case asking =>
      rw [toServer, id]
      intro r mem name body
      obtain ⟨alone, own, none, silent⟩ := h.asking r mem name body
      exact ⟨alone, own, none, fun w mem => silent w (words w mem)⟩
    case told =>
      rw [id]
      exact fun w mem => h.told w (words w mem)
    case accepted =>
      intro token accepted
      rw [id]
      obtain same | ⟨token', code, eq, registered⟩ := standing
      · exact h.accepted token (same.symm.trans accepted)
      · rw [eq] at accepted
        split at accepted
        · rename_i yes
          rw [registered, if_pos yes, Standing.accepted.inj accepted]
        · exact nomatch accepted
    case calling =>
      intro job mem
      rw [jobs] at mem
      obtain ⟨token, before⟩ := h.calling job mem
      obtain same | ⟨token', code, eq, registered⟩ := standing
      · exact ⟨token, same.trans before⟩
      · rw [h.accepted token before] at registered
        split at registered
        · rename_i yes
          rw [eq, if_pos yes]
          exact ⟨token', rfl⟩
        · exact nomatch registered
    case known =>
      rw [toServer, id]
      exact h.known
    case drafts =>
      rw [jobs, id]
      exact h.drafts

theorem tearDown (h : Enrolled s i p) (orderly : p.Orderly) (linked : p.tearDown.client.link ≠ none) :
    Enrolled s i p.tearDown := by
  obtain ⟨-, words, toServer, jobs, client⟩ := Peer.tearDown_frame orderly linked
  constructor
  case asking =>
    rw [words, toServer, client]
    exact h.asking
  case told =>
    rw [words, client]
    exact h.told
  case accepted =>
    rw [client]
    exact h.accepted
  case calling =>
    rw [jobs, client]
    exact h.calling
  case known =>
    rw [toServer, client]
    exact h.known
  case drafts =>
    rw [jobs, client]
    exact h.drafts

theorem arrive (h : Enrolled s i p) (linked : p.client.link ≠ none)
    (registrations : s'.registrations[i]? = s.registrations[i]?) {xs : List Incoming}
    (other : ∀ x ∈ xs, ∀ token code, x.packet.message.body ≠ .registerResponse token code) :
    Enrolled s' i (p.arrive xs) := by
  obtain ⟨client, toServer, jobs⟩ := p.arrive_frame xs
  have old {w : Word} (mem : w ∈ (p.arrive xs).words) :
      w ∈ p.words ∨ ∀ token code, w.body ≠ .registerResponse token code := by
    rw [Peer.words_arrive linked] at mem
    rcases List.mem_append.mp mem with mem | mem
    · exact .inl mem
    · obtain ⟨x, mem', rfl⟩ := List.mem_map.mp mem
      exact .inr (other x mem')
  constructor
  case asking =>
    rw [toServer, client, registrations]
    intro r mem name body
    obtain ⟨alone, own, none, silent⟩ := h.asking r mem name body
    refine ⟨alone, own, none, fun w mem => ?_⟩
    obtain mem | new := old mem
    · exact silent w mem
    · exact new
  case told =>
    rw [client, registrations]
    intro w mem token code body
    obtain mem | new := old mem
    · exact h.told w mem token code body
    · exact absurd body (new token code)
  case accepted =>
    rw [client, registrations]
    exact h.accepted
  case calling =>
    rw [jobs, client]
    exact h.calling
  case known =>
    rw [toServer, client, registrations]
    exact h.known
  case drafts =>
    rw [jobs, client, registrations]
    exact h.drafts

theorem body_of_notice {x : Incoming} (responds : x.packet.RespondsTo none) (token : Token)
    (code : RegisterCode) : x.packet.message.body ≠ .registerResponse token code := by
  intro body
  apply responds
  show x.packet.message.body.kind.role = .response
  rw [body]
  rfl

theorem overhear (h : Enrolled s i p) (linked : p.client.link ≠ none)
    (registrations : s'.registrations[i]? = s.registrations[i]?) {xs : List Incoming}
    (notices : ∀ x ∈ xs, x.packet.RespondsTo x.request? ∧ x.request? = none) :
    Enrolled s' i (p.arrive xs) := by
  apply h.arrive linked registrations
  intro x mem
  obtain ⟨responds, none⟩ := notices x mem
  rw [none] at responds
  exact body_of_notice responds

theorem serve (h : Enrolled s i p) : Enrolled s i p.serve where
  asking r mem name body := by
    obtain ⟨alone, -⟩ := h.asking r (List.mem_of_mem_tail mem) name body
    have mem : r ∈ p.toServer.tail := mem
    rw [alone] at mem
    exact nomatch mem
  told := h.told
  accepted := h.accepted
  calling := h.calling
  known r mem := h.known r (List.mem_of_mem_tail mem)
  drafts := h.drafts

/-- The client is told how its registration went, as the server noted it. -/
theorem answer_register (h : Enrolled s i p) (linked : p.client.link ≠ none) (empty : s.outbox = [])
    (now : Nat) {r : Request} (mem : r ∈ p.toServer) {name : NodeId}
    (body : r.packet.message.body = .registerRequest name) (removed : Bool) :
    Enrolled { s.handle now i r.packet.seq r.packet.message with outbox := [] } i
      (p.serve.arrive (arrivals (some ⟨r, removed⟩)
        (s.handle now i r.packet.seq r.packet.message).outbox i)) := by
  obtain ⟨alone, rfl, none, silent⟩ := h.asking r mem name body
  obtain ⟨token, code, put, registrations⟩ :=
    Server.register_answer none body now r.packet.seq
  rw [empty, List.nil_append] at put
  have served : p.serve.toServer = [] := by
    unfold Peer.serve
    rw [alone]
    rfl
  generalize s.handle now i r.packet.seq r.packet.message = s' at put registrations
  have xs : arrivals (some ⟨r, removed⟩) s'.outbox i =
      [⟨.ofMessage r.packet.seq ⟨s.token, .registerResponse token code⟩, some ⟨r, removed⟩⟩] := by
    rw [put]
    exact (arrivals_respond _ rfl rfl i).trans (by rw [if_pos rfl]; rfl)
  rw [xs]
  have words := Peer.words_arrive (p := p.serve) linked
    [⟨.ofMessage r.packet.seq ⟨s.token, .registerResponse token code⟩, some ⟨r, removed⟩⟩]
  obtain ⟨client, toServer, jobs⟩ := p.serve.arrive_frame
    [⟨.ofMessage r.packet.seq ⟨s.token, .registerResponse token code⟩, some ⟨r, removed⟩⟩]
  have unknown (token : Token) : p.client.standing ≠ .accepted token := by
    intro standing
    exact nomatch none.symm.trans (h.accepted token standing)
  constructor
  case asking =>
    rw [toServer, served]
    exact fun r mem => nomatch mem
  case told =>
    rw [client, words]
    intro w mem token' code' body'
    rcases List.mem_append.mp mem with mem | mem
    · exact absurd body' (silent w mem token' code')
    · obtain rfl := List.mem_singleton.mp mem
      obtain ⟨rfl, rfl⟩ := Body.registerResponse.inj body'
      exact registrations
  case accepted =>
    rw [client]
    exact fun token' standing => absurd standing (unknown token')
  case calling =>
    rw [client, jobs]
    exact h.calling
  case known =>
    rw [toServer, served]
    exact fun r mem => nomatch mem
  case drafts =>
    rw [jobs]
    intro job mem
    obtain ⟨token', standing⟩ := h.calling job mem
    exact absurd standing (unknown token')

theorem answer (h : Enrolled s i p) (linked : p.client.link ≠ none) (empty : s.outbox = [])
    (now : Nat) {r : Request} {rest : List Request} (next : p.toServer = r :: rest)
    (removed : Bool) :
    Enrolled { s.handle now i r.packet.seq r.packet.message with outbox := [] } i
      (p.serve.arrive (arrivals (some ⟨r, removed⟩)
        (s.handle now i r.packet.seq r.packet.message).outbox i)) := by
  have mem : r ∈ p.toServer := by
    rw [next]
    exact List.mem_cons_self
  by_cases register : ∃ name, r.packet.message.body = .registerRequest name
  · obtain ⟨name, body⟩ := register
    exact h.answer_register linked empty now mem body removed
  · have other (name : NodeId) : r.packet.message.body ≠ .registerRequest name :=
      fun body => register ⟨name, body⟩
    apply h.serve.arrive linked
    · exact Server.handle_registrations now r.packet.seq fun _ => other
    · intro x mem' token code body
      obtain notices | ⟨-, genuine, once⟩ := arrivals_handle empty now i i r removed
      · obtain ⟨responds, none⟩ := notices x mem'
        rw [none] at responds
        exact body_of_notice responds token code body
      · have responds := genuine x mem'
        cases request : x.request? with
        | none =>
          rw [request] at responds
          exact body_of_notice responds token code body
        | some r' =>
          have own := once.subset (List.mem_filterMap.mpr ⟨x, mem', request⟩)
          obtain rfl := List.mem_singleton.mp own
          rw [request] at responds
          obtain ⟨-, -, answers⟩ := responds
          rw [body] at answers
          cases asked : r'.packet.message.body with
          | registerRequest name => exact other name asked
          | _ =>
            rw [asked] at answers
            exact answers

theorem turn {p' : Peer} (h : p.client.link ≠ none → Enrolled s i p) (orderly : p.Orderly)
    (empty : s.outbox = []) (turn : Turn s i p s' p') (linked' : p'.client.link ≠ none) :
    Enrolled s' i p' := by
  have linked := turn.linked orderly linked'
  have h := h linked
  cases turn with
  | same => exact h
  | ask now a => exact h.ask now a
  | advance now numbering j => exact h.advance orderly now numbering j
  | correlate => exact h.correlate
  | dispatch => exact h.dispatch
  | tearDown => exact h.tearDown orderly linked'
  | expire now =>
    apply h.overhear linked _ (expire_notices empty now)
    exact congrArg (·[i]?) (s.fireDue_registrations now)
  | lose now other =>
    apply h.overhear linked _ (lose_notices empty now _)
    exact (s.lose_registrations now _ i).trans (if_neg other)
  | hangUp now gone => exact absurd gone linked
  | overhear now r removed other =>
    apply h.overhear linked _ (overhear_notices empty now r removed other)
    exact Server.handle_registrations now r.packet.seq fun own => absurd own other
  | answer now next removal => exact h.answer linked empty now next _

end Enrolled
end Muster
