import Muster.Proofs.Directory.Generation
import Muster.Proofs.Server.Outbox

/-! What can happen to a server: requests, lost connections and the handling of due events in any
order and at any times. The changes of its directory are a history of that directory. -/
namespace Muster.Server

inductive Action where
  | request (c : ConnId) (seq : Int32) (m : Message)
  | lose (c : ConnId)
  /-- Handles the events that are due. -/
  | expire
  /-- Takes away the outbox. -/
  | flush

def actBy {m : Type → Type} [Monad m] (add : Nat → Nat → m Nat) (s : Server) (now : Nat) :
    Action → m Server
  | .request c seq msg => s.handleBy add now c seq msg
  | .lose c => return s.lose now c
  | .expire => s.fireDueBy add now
  | .flush => return { s with outbox := [] }

def act (s : Server) (now : Nat) (a : Action) : Server := (s.actBy Instant.add now a).run

structure Episode where
  now : Nat
  action : Action
  before : Server
  after : Server

inductive History (first : Server) : List Episode → Server → Prop where
  | start : History first [] first
  | act {past : List Episode} {s : Server} (now : Nat) (a : Action) (run : History first past s) :
      History first (⟨now, a, s, s.act now a⟩ :: past) (s.act now a)

def play (first : Server) : List (Nat × Action) → List Episode × Server
  | [] => ([], first)
  | (now, a) :: earlier =>
    let (past, s) := play first earlier
    (⟨now, a, s, s.act now a⟩ :: past, s.act now a)

theorem History.play (first : Server) (actions : List (Nat × Action)) :
    History first (play first actions).1 (play first actions).2 := by
  induction actions with
  | nil => exact .start
  | cons x actions ih => exact .act x.1 x.2 ih

theorem History.at {first s : Server} {post pre : List Episode} {e : Episode}
    (run : History first (post ++ e :: pre) s) :
    History first pre e.before ∧ e.after = e.before.act e.now e.action := by
  induction post generalizing s with
  | nil =>
    rw [List.nil_append] at run
    cases run with
    | act now a run => exact ⟨run, rfl⟩
  | cons f post ih =>
    rw [List.cons_append] at run
    cases run with
    | act now a run => exact ih run

/-- What a request asks of the directory. A client that the server does not know of gets
nothing done. -/
def request? (s : Server) (c : ConnId) (m : Message) : Option Directory.Action :=
  (s.authenticate c m.sender).bind fun member =>
    match m.body with
    | .joinRequest ref => some (.join c member ref)
    | .leaveRequest ref => some (.leave c ref)
    | .syncRequest ref terms => some (.sync c ref terms)
    | _ => none

/-- What an action does to the directory, the last first. -/
def ledger (s : Server) (now : Nat) : Action → List Directory.Episode
  | .request c _ m => ((s.request? c m).map (s.directory.episode s.policy now)).toList
  | .lose c => [s.directory.episode s.policy now (.removeConnection c)]
  | .expire => Directory.firings s.policy now s.directory.agenda.size s.directory
  | .flush => []

def Episode.ledger (e : Episode) : List Directory.Episode := e.before.ledger e.now e.action

variable {s : Server} {now : Nat} {c : ConnId} {m : Message}

theorem request?_cases {a : Directory.Action} (asked : s.request? c m = some a) :
    ∃ member, s.authenticate c m.sender = some member ∧
      ((∃ ref, m.body = .joinRequest ref ∧ a = .join c member ref) ∨
        (∃ ref, m.body = .leaveRequest ref ∧ a = .leave c ref) ∨
        ∃ ref terms, m.body = .syncRequest ref terms ∧ a = .sync c ref terms) := by
  obtain ⟨member, known, asked⟩ := Option.bind_eq_some_iff.mp asked
  refine ⟨member, known, ?_⟩
  split at asked
  · rename_i ref body
    exact .inl ⟨ref, body, (Option.some.inj asked).symm⟩
  · rename_i ref body
    exact .inr (.inl ⟨ref, body, (Option.some.inj asked).symm⟩)
  · rename_i ref terms body
    exact .inr (.inr ⟨ref, terms, body, (Option.some.inj asked).symm⟩)
  · contradiction

theorem register_directory (s : Server) (c : ConnId) (seq : Int32) (id : NodeId) :
    (s.register c seq id).directory = s.directory := by
  unfold register
  split
  · exact (s.enroll_frame c id).2.2
  · rfl

theorem handle_directory (s : Server) (now : Nat) (c : ConnId) (seq : Int32) (m : Message) :
    (s.handle now c seq m).directory =
      ((s.request? c m).map fun a => (s.directory.act s.policy now a).1).getD s.directory := by
  obtain ⟨sender, body⟩ := m
  unfold request?
  cases known : s.authenticate c sender with
  | none =>
    cases body with
    | registerRequest id => exact s.register_directory c seq id
    | joinRequest ref =>
      show (s.join now c sender seq ref).directory = s.directory
      unfold join
      rw [known]
      rfl
    | leaveRequest ref =>
      show (s.leave now c sender seq ref).directory = s.directory
      unfold leave
      rw [known]
      rfl
    | syncRequest ref terms =>
      show (s.sync now c sender seq ref terms).directory = s.directory
      unfold sync syncBy
      dsimp only [Id.run, bind, pure]
      rw [known]
      rfl
    | registerResponse | joinResponse | membershipNotice | leaveResponse | syncResponse
    | progressNotice => rfl
  | some member =>
    cases body with
    | registerRequest id => exact s.register_directory c seq id
    | joinRequest ref =>
      show (s.join now c sender seq ref).directory = _
      unfold join
      rw [known]
      exact queueAll_directory _ _
    | leaveRequest ref =>
      show (s.leave now c sender seq ref).directory = _
      unfold leave
      rw [known]
      exact queueAll_directory _ _
    | syncRequest ref terms =>
      show (s.sync now c sender seq ref terms).directory = _
      unfold sync syncBy
      dsimp only [Id.run, bind, pure]
      rw [known]
      exact queueAll_directory _ _
    | registerResponse | joinResponse | membershipNotice | leaveResponse | syncResponse
    | progressNotice => rfl

/-- What a request tells is the news of what it does to the directory. -/
theorem Serves.told {answer : Body} {out : Directory × List Broadcast}
    (serves : s.Serves now c m answer out) (seq : Int32) :
    Directory.told (s.ledger now (.request c seq m)) = out.2 := by
  have asked {a : Directory.Action} (eq : s.request? c m = some a) :
      Directory.told (s.ledger now (.request c seq m)) = (s.directory.act s.policy now a).2 := by
    show Directory.told ((s.request? c m).map _).toList = _
    rw [eq]
    exact List.nil_append _
  have nothing (eq : s.request? c m = none) :
      Directory.told (s.ledger now (.request c seq m)) = [] := by
    show Directory.told ((s.request? c m).map _).toList = _
    rw [eq]
    rfl
  cases serves with
  | register body =>
    apply nothing
    unfold request?
    rw [body]
    exact Option.bind_fun_none _
  | refuse unknown answers body =>
    apply nothing
    unfold request?
    rw [unknown]
    rfl
  | join known body =>
    apply asked
    unfold request?
    rw [known, body]
    rfl
  | leave known body =>
    apply asked
    unfold request?
    rw [known, body]
    rfl
  | sync known body =>
    apply asked
    unfold request?
    rw [known, body]
    rfl

/-- A request puts its answer into the outbox, and behind it the news of what it does to the
directory. -/
theorem handle_tells (request : m.role = .request) (s : Server) (now : Nat) (c : ConnId)
    (seq : Int32) : ∃ answer told, answer.Answers m.body ∧
      (s.handle now c seq m).outbox = s.outbox ++ (⟨c, .ofMessage seq ⟨s.token, answer⟩⟩ :: told) ∧
      mail told = news s.token (Directory.told (s.ledger now (.request c seq m))) := by
  obtain ⟨answer, told, bs, serves, put, eq⟩ := handle_answers request s now c seq
  refine ⟨answer, told, serves.answers, put, ?_⟩
  rw [serves.told seq]
  exact eq

theorem request?_of_not_request (other : m.role ≠ .request) : s.request? c m = none := by
  cases asked : s.request? c m with
  | none => rfl
  | some a =>
    obtain ⟨member, -, ⟨ref, body, -⟩ | ⟨ref, body, -⟩ | ⟨ref, terms, body, -⟩⟩ :=
      request?_cases asked
    · exact absurd (congrArg (fun b => b.kind.role) body) other
    · exact absurd (congrArg (fun b => b.kind.role) body) other
    · exact absurd (congrArg (fun b => b.kind.role) body) other

/-- What is given in answer to an action: one packet if it is a request, and else none. -/
inductive Action.Answered (token : Token) : Action → List Outgoing → Prop where
  | request {c : ConnId} {seq : Int32} {m : Message} {answer : Body} (request : m.role = .request)
      (answers : answer.Answers m.body) :
      Answered token (.request c seq m) [⟨c, .ofMessage seq ⟨token, answer⟩⟩]
  | other {a : Action} (other : ∀ c seq m, a = .request c seq m → m.role ≠ .request) :
      Answered token a []

theorem Action.Answered.role {token : Token} {a : Action} {answers : List Outgoing}
    (answered : a.Answered token answers) :
    ∀ o ∈ answers, o.packet.message.role = .response := by
  cases answered with
  | request request answers =>
    intro o mem
    rw [List.mem_singleton.mp mem]
    exact answers.role
  | other other => exact fun o mem => absurd mem List.not_mem_nil

/-- What an action puts into the outbox is its answer, and behind it the news of what the action
does to the directory. -/
theorem act_tells (s : Server) (now : Nat) {a : Action} (keeps : a ≠ .flush) : ∃ answers told,
    (s.act now a).outbox = s.outbox ++ (answers ++ told) ∧ a.Answered s.token answers ∧
      mail told = news s.token (Directory.told (s.ledger now a)) := by
  cases a with
  | request c seq m =>
    by_cases request : m.role = .request
    · obtain ⟨answer, told, answers, put, eq⟩ := handle_tells request s now c seq
      exact ⟨[⟨c, .ofMessage seq ⟨s.token, answer⟩⟩], told, put, .request request answers, eq⟩
    · refine ⟨[], [], ?_, .other fun c' seq' m' eq => ?_, ?_⟩
      · show (s.handle now c seq m).outbox = s.outbox ++ []
        rw [handle_of_not_request request, List.append_nil]
      · cases eq
        exact request
      · show [] = news s.token (Directory.told ((s.request? c m).map _).toList)
        rw [request?_of_not_request request]
        rfl
  | lose c =>
    obtain ⟨told, bs, change, put, eq⟩ := s.lose_outbox now c
    refine ⟨[], told, put, .other nofun, ?_⟩
    rw [eq, (Prod.mk.inj change).2]
    rfl
  | expire =>
    obtain ⟨told, -, put, eq⟩ := s.fireDue_outbox now
    refine ⟨[], told, put, .other nofun, ?_⟩
    rw [eq]
    exact congrArg (news s.token) (Directory.fireMany_told ..)
  | flush => contradiction

/-- The limits of a server are never changed. -/
structure SameLimits (s s' : Server) : Prop where
  policy : s'.policy = s.policy
  maxClients : s'.maxClients = s.maxClients

namespace SameLimits

theorem refl (s : Server) : SameLimits s s := ⟨rfl, rfl⟩

theorem trans {s s' s'' : Server} (h : SameLimits s s') (h' : SameLimits s' s'') :
    SameLimits s s'' := ⟨h'.policy.trans h.policy, h'.maxClients.trans h.maxClients⟩

theorem queueAll {s s' : Server} (h : SameLimits s s') (bs : List Broadcast) :
    SameLimits s (s'.queueAll bs) :=
  h.trans ⟨queueAll_policy s' bs, queueAll_maxClients s' bs⟩

theorem unregister (s : Server) (c : ConnId) : SameLimits s (s.unregister c) := by
  unfold Server.unregister
  split
  · exact .refl s
  · exact ⟨rfl, rfl⟩

theorem enroll (s : Server) (c : ConnId) (id : NodeId) : SameLimits s (s.enroll c id).2 := by
  have freed : SameLimits s (if s.clients.contains id then s else s.unregister c) := by
    split
    · exact .refl s
    · exact .unregister s c
  unfold Server.enroll
  dsimp only
  split
  · exact freed.trans ⟨rfl, rfl⟩
  · exact freed.trans ⟨rfl, rfl⟩

theorem handle (s : Server) (now : Nat) (c : ConnId) (seq : Int32) (m : Message) :
    SameLimits s (s.handle now c seq m) := by
  unfold Server.handle Server.handleBy
  dsimp only [Id.run, bind, pure]
  split
  · unfold Server.register
    split
    · exact (enroll s c _).trans ⟨rfl, rfl⟩
    · exact ⟨rfl, rfl⟩
  · unfold Server.join
    split
    · exact ⟨rfl, rfl⟩
    · refine queueAll ?_ _
      exact ⟨rfl, rfl⟩
  · unfold Server.leave
    split
    · exact ⟨rfl, rfl⟩
    · refine queueAll ?_ _
      exact ⟨rfl, rfl⟩
  · unfold Server.syncBy
    dsimp only [Id.run, bind, pure]
    split
    · exact ⟨rfl, rfl⟩
    · refine queueAll ?_ _
      exact ⟨rfl, rfl⟩
  · exact .refl s

theorem act (s : Server) (now : Nat) (a : Action) : SameLimits s (s.act now a) := by
  cases a with
  | request c seq m => exact .handle s now c seq m
  | lose c =>
    refine queueAll ?_ _
    exact (unregister s c).trans ⟨rfl, rfl⟩
  | expire =>
    refine queueAll ?_ _
    exact ⟨rfl, rfl⟩
  | flush => exact ⟨rfl, rfl⟩

end SameLimits

theorem ledger_action {a : Action} {e : Directory.Episode} (mem : e ∈ s.ledger now a) :
    e.now = now ∧ e.action.isResolve = false ∧ ∀ interval, e.action ≠ .watch interval := by
  cases a with
  | request c seq m =>
    obtain ⟨b, asked, rfl⟩ := Option.map_eq_some_iff.mp (Option.mem_toList.mp mem)
    refine ⟨rfl, ?_⟩
    obtain ⟨member, -, ⟨ref, -, rfl⟩ | ⟨ref, -, rfl⟩ | ⟨ref, terms, -, rfl⟩⟩ :=
      request?_cases asked
    · exact ⟨rfl, nofun⟩
    · exact ⟨rfl, nofun⟩
    · exact ⟨rfl, nofun⟩
  | lose c =>
    obtain rfl := List.mem_singleton.mp mem
    exact ⟨rfl, rfl, nofun⟩
  | expire =>
    obtain ⟨time, action⟩ := Directory.mem_firings mem
    rw [action]
    exact ⟨time, rfl, nofun⟩
  | flush => exact absurd mem List.not_mem_nil

/-- Whatever a server does is a part of its directory's history. -/
theorem act_run {past : List Directory.Episode} (h : Directory.Run s.policy past s.directory)
    (now : Nat) (a : Action) :
    Directory.Run s.policy (s.ledger now a ++ past) (s.act now a).directory := by
  cases a with
  | request c seq m =>
    show Directory.Run s.policy (((s.request? c m).map _).toList ++ past)
      (s.handle now c seq m).directory
    rw [handle_directory]
    cases s.request? c m with
    | none => exact h
    | some a => exact .act now a h
  | lose c =>
    obtain ⟨told, bs, directory, -⟩ := s.lose_outbox now c
    show Directory.Run s.policy _ (s.lose now c).directory
    rw [(Prod.mk.inj directory).1]
    exact .act now (.removeConnection c) h
  | expire =>
    obtain ⟨told, directory, -⟩ := s.fireDue_outbox now
    show Directory.Run s.policy _ (s.fireDue now).directory
    rw [directory]
    exact h.fireMany now s.directory.agenda.size
  | flush => exact h

section
variable {config : ServerConfig} {token : Token} {start : Nat} {numbering : Numbering}
  {tokens : TokenSource} {past : List Episode}

def opening (config : ServerConfig) (now : Nat) : Directory.Episode :=
  Directory.empty.episode config.policy now (.watch config.housekeepingInterval)

def records (config : ServerConfig) (start : Nat) (past : List Episode) :
    List Directory.Episode := past.flatMap Episode.ledger ++ [opening config start]

theorem History.limits {first : Server} (h : History first past s) : SameLimits first s := by
  induction h with
  | start => exact .refl first
  | act now a run ih => exact ih.trans (.act _ now a)

theorem History.run (h : History (.start config token start numbering tokens) past s) :
    Directory.Run config.policy (records config start past) s.directory := by
  induction h with
  | start => exact .act start (.watch config.housekeepingInterval) .start
  | @act past s now a run ih =>
    have same := run.limits.policy
    show Directory.Run config.policy ((s.ledger now a ++ past.flatMap Episode.ledger) ++ _) _
    rw [List.append_assoc, ← show s.policy = config.policy from same]
    exact act_run (same ▸ ih) now a

theorem mem_records {e : Directory.Episode} (mem : e ∈ records config start past) :
    e = opening config start ∨ ∃ f ∈ past, e ∈ f.ledger := by
  rcases List.mem_append.mp mem with mem | mem
  · exact .inr (List.mem_flatMap.mp mem)
  · exact .inl (List.mem_singleton.mp mem)

theorem records_unforced : Directory.Unforced (records config start past) := by
  intro e mem
  rcases mem_records mem with rfl | ⟨f, -, mem⟩
  · rfl
  · exact (ledger_action mem).2.1

end

def sampleServer : Server := .start .standard .null 0 (.ofSeed 0) (.ofSeed 0)

/-- Two clients register, join a group and meet; the last request is first. -/
def sampleRequests : List (Nat × Action) :=
  let (first, tokens) := (TokenSource.ofSeed 0).draw
  let second := tokens.draw.1
  [(0, .request 1 3 ⟨second, .syncRequest Directory.sampleRef Directory.sampleTerms⟩),
    (0, .request 0 3 ⟨first, .syncRequest Directory.sampleRef Directory.sampleTerms⟩),
    (0, .request 1 2 ⟨second, .joinRequest Directory.sampleRef⟩),
    (0, .request 0 2 ⟨first, .joinRequest Directory.sampleRef⟩),
    (0, .request 1 1 ⟨.null, .registerRequest Directory.sampleRef.id⟩),
    (0, .request 0 1 ⟨.null, .registerRequest Directory.sampleMember⟩)]

end Muster.Server
