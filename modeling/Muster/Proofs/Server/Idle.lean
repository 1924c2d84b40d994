import Muster.Proofs.Directory.Activity
import Muster.Proofs.Server.Cleared

/-! How long a group in which nothing happens stays. A server looks for idle groups again and again,
and closes none that was active not too long ago. -/
namespace Muster

theorem ConfigError.positive_of_requirePositive {settings : List (String × Nat)}
    (valid : requirePositive settings = .ok ()) : ∀ x ∈ settings, 0 < x.2 := by
  induction settings with
  | nil => exact fun x mem => absurd mem List.not_mem_nil
  | cons first rest ih =>
    obtain ⟨setting, value⟩ := first
    unfold requirePositive at valid
    split at valid
    · contradiction
    · rename_i positive
      intro x mem
      rcases List.mem_cons.mp mem with rfl | mem
      · exact Nat.pos_of_ne_zero positive
      · exact ih valid x mem

/-- A server that may be started has an interval for housekeeping. -/
theorem ServerConfig.interval_of_validate {config : ServerConfig}
    (valid : config.validate = .ok ()) : 0 < config.housekeepingInterval := by
  unfold validate at valid
  cases checked : ConfigError.requirePositive [
      ("Select timeout", config.selectTimeout),
      ("Group idle timeout", config.groupIdleTimeout),
      ("Housekeeping interval", config.housekeepingInterval),
      ("Start timeout", config.startTimeout),
      ("Stop timeout", config.stopTimeout),
      ("Group max size", config.groupMaxSize)] with
  | error e =>
    rw [checked] at valid
    exact nomatch valid
  | ok _ =>
    exact ConfigError.positive_of_requirePositive checked
      ("Housekeeping interval", config.housekeepingInterval) (by simp)

namespace Server
variable {config : ServerConfig} {token : Token} {start : Nat} {numbering : Numbering}
  {tokens : TokenSource} {past : List Episode} {s : Server}

theorem History.armed (h : History (.start config token start numbering tokens) past s) :
    Armed s.directory.point? s.directory.agenda := h.run.armed records_unforced

theorem History.timely (h : History (.start config token start numbering tokens) past s)
    (interval : 0 < config.housekeepingInterval) {now : Nat} (earlier : ∀ e ∈ past, e.now ≤ now) :
    Directory.Timely now s.directory.agenda := by
  apply h.run.timely
  intro e mem
  rcases mem_records mem with rfl | ⟨f, past, mem⟩
  · exact .inl ⟨config.housekeepingInterval, rfl, interval⟩
  · obtain ⟨time, -, other⟩ := ledger_action mem
    exact .inr ⟨time ▸ earlier f past, other⟩

open Directory in
theorem act_watched {interval clock now : Nat} (a : Action)
    (h : Watched s.policy interval clock s.directory)
    (armed : Armed s.directory.point? s.directory.agenda) (later : clock ≤ now) :
    Watched s.policy interval now (s.act now a).directory := by
  cases a with
  | request c seq m =>
    show Watched _ _ _ (s.handle now c seq m).directory
    rw [handle_directory]
    cases s.request? c m with
    | none => exact h.mono later
    | some a => exact h.act armed later a
  | lose c =>
    obtain ⟨told, bs, directory, -⟩ := s.lose_outbox now c
    show Watched _ _ _ (s.lose now c).directory
    rw [(Prod.mk.inj directory).1]
    exact h.act armed later (.removeConnection c)
  | expire =>
    obtain ⟨told, directory, -⟩ := s.fireDue_outbox now
    show Watched _ _ _ (s.fireDue now).directory
    rw [directory]
    exact h.fireMany armed later s.directory.agenda.size
  | flush => exact h.mono later

/-- Housekeeping is on a server's agenda from the start on. -/
theorem History.watched (h : History (.start config token start numbering tokens) past s)
    (ordered : (past.map Episode.now ++ [start]).Pairwise (· ≥ ·)) {clock : Nat}
    (later : ∀ t ∈ past.map Episode.now ++ [start], t ≤ clock) :
    Directory.Watched config.policy config.housekeepingInterval clock s.directory := by
  induction h generalizing clock with
  | start =>
    refine ⟨_, Agenda.mem_schedule.mpr (.inl rfl), rfl, rfl, rfl, start, ?_, rfl, ?_⟩
    · exact later start (List.mem_singleton_self start)
    · exact fun id g group =>
        nomatch (Std.ExtTreeMap.getElem?_empty (a := id)).symm.trans group
  | @act past s now a run ih =>
    obtain ⟨first, ordered⟩ := List.pairwise_cons.mp ordered
    have before := ih ordered first
    have limits : s.policy = config.policy := run.limits.policy
    rw [← limits] at before ⊢
    exact (act_watched a before run.armed (Nat.le_refl now)).mono (later now List.mem_cons_self)

/-- When something last happened in a group, as far as its server saw it. -/
def lastActive (config : ServerConfig) (start : Nat) (past : List Episode) (id : NodeId) :
    Option Nat := Directory.lastActive (records config start past) id

/-- After each look at what is due, something happened in every group less than the idle timeout
and one interval ago. A group in which something happened not longer than the idle timeout ago is
left alone whenever housekeeping runs. -/
theorem History.idle_groups_close (h : History (.start config token start numbering tokens) past s)
    (valid : config.validate = .ok ())
    (ordered : (past.map Episode.now ++ [start]).Pairwise (· ≥ ·)) :
    (∀ post e pre, past = post ++ e :: pre → e.action = .expire →
      ∀ id g, e.after.directory.groups[id]? = some g →
        ∃ t, lastActive config start (e :: pre) id = some t ∧
          e.now < t + config.groupIdleTimeout + config.housekeepingInterval) ∧
      ∀ post e pre, records config start past = post ++ e :: pre →
        e.action.Handles e.before e.now .housekeeping →
          ∀ id g t, e.before.groups[id]? = some g → Directory.lastActive pre id = some t →
            e.now ≤ t + config.groupIdleTimeout → e.after.groups[id]? = some g := by
  have interval := ServerConfig.interval_of_validate valid
  constructor
  · rintro post e pre rfl expires id g group
    obtain ⟨before, after⟩ := h.at
    rw [List.map_append, List.append_assoc] at ordered
    have ordered := (List.pairwise_append.mp ordered).2.1
    obtain ⟨first, ordered⟩ := List.pairwise_cons.mp ordered
    have timely : Directory.Timely e.now e.before.directory.agenda :=
      before.timely interval fun f mem =>
        first f.now (List.mem_append_left _ (List.mem_map_of_mem mem))
    have whole : History (.start config token start numbering tokens) (e :: pre) e.after := by
      have step := History.act e.now e.action before
      rw [← after] at step
      exact step
    have watched : Directory.Watched config.policy config.housekeepingInterval e.now
        e.after.directory := by
      refine whole.watched (List.pairwise_cons.mpr ⟨first, ordered⟩) fun t mem => ?_
      rcases List.mem_cons.mp mem with rfl | mem
      · exact Nat.le_refl _
      · exact first t mem
    obtain ⟨entry, mem, -, -, -, since, -, trigger, idle⟩ := watched
    obtain ⟨fired, cleared, -⟩ := Directory.fireDue_cleared e.before.policy before.armed timely
    have due : e.now < entry.trigger := by
      obtain ⟨told, directory, -⟩ := e.before.fireDue_outbox e.now
      rw [after, expires] at mem
      exact cleared.idle entry (directory ▸ mem)
    have active := idle id g group
    have limit : config.policy.idleTimeout = config.groupIdleTimeout := rfl
    exact ⟨g.lastActivity, whole.run.lastActive group, by omega⟩
  · intro post e pre split handles id g t group active recent
    have run := h.run
    rw [split] at run
    obtain ⟨before, episode⟩ := run.at
    rw [before.lastActive group] at active
    obtain rfl := Option.some.inj active
    rw [episode]
    exact (Directory.act_groups handles).mpr ⟨group, recent⟩

theorem idle_groups_close_of_two :
    let actions := (Duration.ofSeconds 60, .expire) :: sampleRequests
    let past := (play sampleServer actions).1
    let s := (play sampleServer actions).2
    ServerConfig.standard.validate = .ok () ∧ (past.map Episode.now ++ [0]).Pairwise (· ≥ ·) ∧
      ∃ g, s.directory.groups[Directory.sampleRef.id]? = some g ∧
        ∃ t, lastActive .standard 0 past Directory.sampleRef.id = some t ∧
          Duration.ofSeconds 60 < t + Duration.ofSeconds 60 + Duration.ofSeconds 1 := by
  intro actions past s
  have run : History sampleServer past s := .play _ _
  have valid : ServerConfig.standard.validate = .ok () := by decide
  have ordered : (past.map Episode.now ++ [0]).Pairwise (· ≥ ·) := by decide +kernel
  have here : (s.directory.groups[Directory.sampleRef.id]?).isSome = true := by decide +kernel
  obtain ⟨g, group⟩ := Option.isSome_iff_exists.mp here
  obtain ⟨active, -⟩ := History.idle_groups_close run valid ordered
  exact ⟨valid, ordered, g, group, active [] _ _ rfl rfl Directory.sampleRef.id g group⟩

end Server
end Muster
