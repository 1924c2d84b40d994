import Muster.Proofs.Directory.Firing
import Muster.Proofs.Server.History

/-! What is left of a server's sync points when it has handled all events that are due. -/
namespace Muster.Server
variable {config : ServerConfig} {token : Token} {start : Nat} {numbering : Numbering}
  {tokens : TokenSource} {past : List Episode} {s : Server}

theorem mem_mail {out : List Outgoing} {c : ConnId} {m : Message} (mem : (c, m) ∈ mail out) :
    ∃ o ∈ out, o.receiver = c ∧ o.packet.message = m := by
  obtain ⟨o, here, eq⟩ := List.mem_map.mp mem
  obtain ⟨receiver, message⟩ := Prod.mk.inj eq
  exact ⟨o, here, receiver, message⟩

theorem notice_news {bs : List Broadcast} {p : SyncPoint} {ref : GroupRef} {name : NodeId}
    {code : ProgressCode} (told : p.notice ref name code ∈ bs) {c : ConnId} {member : NodeId}
    (arrived : p.arrived[c]? = some member) (token : Token) :
    (c, ⟨token, .progressNotice ref p.arrived.ids name code⟩) ∈ news token bs := by
  refine List.mem_flatMap.mpr ⟨_, told, List.mem_map.mpr ⟨c, ?_, rfl⟩⟩
  exact Table.mem_keys_iff.mpr ⟨member, arrived⟩

/-- When a server has handled the events that are due, of those that were on its agenda each has
been handled once or was called off with its group, none is due, all sync points wait for a later
deadline, and those who were at a sync point that was complete or overdue know how it ended. -/
theorem History.due_events_settle
    (h : History (.start config token start numbering tokens) past s)
    (interval : 0 < config.housekeepingInterval) {now : Nat} (earlier : ∀ e ∈ past, e.now ≤ now) :
    ∃ fired told, (s.directory.fireDue s.policy now).1 =
        fired.map (fun f => (f.entry.payload, f.broadcasts)) ∧
      Directory.Cleared s.policy now s.directory fired (s.fireDue now).directory ∧
      (s.fireDue now).outbox = s.outbox ++ told ∧
      ∀ (id name : NodeId) (g : Group) (p : SyncPoint), s.directory.groups[id]? = some g →
        g.points[name]? = some p →
        (∃ e ∈ records config start past, e.Completes id name p.generation) ∨ p.deadline ≤ now →
          ∀ (c : ConnId) (member : NodeId), p.arrived[c]? = some member →
            ∃ o ∈ told, o.receiver = c ∧ ∃ code, code.isFinal = true ∧ o.packet.message =
              ⟨s.token, .progressNotice ⟨id, g.token⟩ p.arrived.ids name code⟩ := by
  have armed := h.run.armed records_unforced
  have timely : Directory.Timely now s.directory.agenda := by
    apply h.run.timely
    intro e mem
    rcases mem_records mem with rfl | ⟨f, past, mem⟩
    · exact .inl ⟨config.housekeepingInterval, rfl, interval⟩
    · obtain ⟨time, -, other⟩ := ledger_action mem
      exact .inr ⟨time ▸ earlier f past, other⟩
  obtain ⟨fired, cleared, list⟩ := Directory.fireDue_cleared s.policy armed timely
  obtain ⟨told, directory, put, eq⟩ := s.fireDue_outbox now
  rw [← directory] at cleared
  refine ⟨fired, told, list, cleared, put, ?_⟩
  intro id name g p group point ended c member arrived
  have here : s.directory.point? id name = some p := by
    rw [Directory.point?_of_group group, point]
  have ended := ended.imp_left (h.run.meetings.gathering id name p here).phase.mpr
  obtain ⟨f, mem, code, final, notice⟩ := cleared.told id name g p group point ended
  have spread : p.notice ⟨id, g.token⟩ name code ∈
      (s.directory.fireDue s.policy now).1.flatMap Prod.snd := by
    rw [list, List.flatMap_map]
    exact List.mem_flatMap.mpr ⟨f, mem, notice⟩
  have sent := notice_news spread arrived s.token
  rw [← eq] at sent
  obtain ⟨o, mem, receiver, message⟩ := mem_mail sent
  exact ⟨o, mem, receiver, code, final, message⟩

theorem due_events_settle_of_two :
    let s := (play sampleServer sampleRequests).2
    ∃ fired told, fired.map (fun f => f.entry.payload) =
        [.resolve Directory.sampleRef.id Directory.sampleTerms.point 0 .success] ∧
      Directory.Cleared s.policy 0 s.directory fired (s.fireDue 0).directory ∧
      (s.fireDue 0).outbox = s.outbox ++ told ∧ told.map Outgoing.receiver = [0, 1] := by
  intro s
  have run : History sampleServer (play sampleServer sampleRequests).1 s := .play _ _
  have earlier : ∀ e ∈ (play sampleServer sampleRequests).1, e.now ≤ 0 := by decide +kernel
  obtain ⟨fired, told, list, cleared, put, -⟩ := History.due_events_settle run (by decide) earlier
  refine ⟨fired, told, ?_, cleared, put, ?_⟩
  · have events := congrArg (List.map Prod.fst) list
    rw [List.map_map] at events
    refine events.symm.trans ?_
    decide +kernel
  · have receivers := congrArg (List.map Outgoing.receiver) put
    rw [List.map_append] at receivers
    have counted : (s.fireDue 0).outbox.map Outgoing.receiver =
        s.outbox.map Outgoing.receiver ++ [0, 1] := by decide +kernel
    exact List.append_cancel_left (receivers.symm.trans counted)

end Muster.Server
