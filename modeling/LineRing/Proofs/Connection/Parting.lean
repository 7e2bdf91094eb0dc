/-
Connections whose peer is gone. A connection reports a disconnected peer where its session saw the peer close, and also
where a read or a call of the reply failed as it does when the peer is gone. `Parting` lists these ways. Main statement:
the report is made just in these ways, and it is true, so that nothing was committed and the number of bytes dropped is
right, just if the peer had closed or had sent nothing (`disconnected_iff_parting`). After a commit whose reply fails it
is made all the same (`disconnected_after_commit`).
-/
import LineRing.Connection
import LineRing.Proofs.Handle.Failure
import LineRing.Proofs.Session.Commit

namespace LineRing

namespace Session

/-! ## Reads that stop a session -/

/-- A read of the script fails with this fault when the reads before it have brought `b` and ended no command. -/
def FailsRead (limit : Nat) (script : List Event) (b : Bytes) (fault : Fault) : Prop :=
  ∃ before rest, script = before ++ .arrival (.fault fault) :: rest ∧ (∀ ev ∈ before, ev.isPassing = true) ∧
    fault.kind ≠ .interrupted ∧ b = brought before ∧ b.length ≤ limit

theorem brought_append (l l' : List Event) : brought (l ++ l') = brought l ++ brought l' := by simp [brought]

theorem ofCommand_eq_close {command : Entry} {result : Except Failure Outcome}
    (h : Decision.ofCommand command = .close result) : ∃ text, result = .error (.protocol text) := by
  unfold Decision.ofCommand at h
  split at h
  · cases h
  · cases h
  · next fault _ => cases h; exact ⟨fault.message, rfl⟩

theorem atEnd_eq_close {draft : Draft} {result : Except Failure Outcome} (h : Decision.atEnd draft = .close result) :
    (∃ text, result = .error (.protocol text)) ∨
      Directive.read? draft.bytes = none ∧ result = .ok (.disconnected draft.size) := by
  unfold Decision.atEnd at h
  rcases hr : Directive.read? draft.bytes with _ | (fault | d)
  · rw [hr] at h; cases h
    exact Or.inr ⟨rfl, rfl⟩
  · rw [hr] at h; cases h
    exact Or.inl ⟨fault.message, rfl⟩
  · rw [hr] at h; cases h

/-- Only a read that fails has its session fail as the stream does. -/
theorem receive_eq_stream_iff {draft : Draft} {a : Arrival} {fault : Fault} :
    receive draft a = .decided (.close (.error (.stream fault))) ↔ a = .fault fault ∧ fault.kind ≠ .interrupted := by
  constructor
  · intro h
    rcases a with (_ | ⟨b, rest⟩) | other
    · rcases atEnd_eq_close (Stage.decided.inj h) with ⟨text, ht⟩ | ⟨-, ht⟩
      · cases ht
      · cases ht
    · replace h : accept draft (b :: rest) = _ := h
      rcases accept_cases draft (b :: rest) with ⟨failure, happ, heq⟩ | ⟨-, ⟨-, heq⟩ | ⟨-, heq⟩⟩
      · obtain ⟨limit, -, -, rfl⟩ := Draft.append_eq_error_iff.1 happ
        rw [heq] at h; cases h
      · rw [heq] at h; cases h
      · rw [heq] at h
        obtain ⟨text, ht⟩ := ofCommand_eq_close (Stage.decided.inj h)
        cases ht
    · unfold receive at h
      dsimp only at h
      split at h
      · cases h
      · next hkind => cases h; exact ⟨rfl, hkind⟩
  · rintro ⟨rfl, hkind⟩
    exact if_neg hkind

section Listening

variable {limit : Nat} {script : List Event} {b : Bytes}

theorem listen_of_breaksOff (h : BreaksOff limit script b) :
    brought (listen ⟨[], some limit⟩ script).1 = b ∧ (listen ⟨[], some limit⟩ script).2 = .atEnd ⟨b, some limit⟩ := by
  obtain ⟨before, hscript, hpass, rfl, hle⟩ := h
  rcases hscript with rfl | ⟨rest, rfl⟩
  · rw [← List.append_nil script, listen_append [] script hpass hle, List.append_nil, List.nil_append]
    exact ⟨congrArg brought (List.append_nil _), rfl⟩
  · rw [listen_append _ before hpass hle, List.nil_append, listen_of_decided rfl, brought_append, brought_bytes]
    exact ⟨List.append_nil _, rfl⟩

theorem listen_of_failsRead {fault : Fault} (h : FailsRead limit script b fault) :
    brought (listen ⟨[], some limit⟩ script).1 = b ∧
      (listen ⟨[], some limit⟩ script).2 = .close (.error (.stream fault)) := by
  obtain ⟨before, rest, rfl, hpass, hkind, rfl, hle⟩ := h
  rw [listen_append _ before hpass hle, List.nil_append,
    listen_of_decided (receive_eq_stream_iff.2 ⟨rfl, hkind⟩), brought_append, brought_fault]
  exact ⟨List.append_nil _, rfl⟩

/-- A command that a script completes is what its reads have brought. -/
theorem brought_of_completes (h : Completes limit script b) :
    brought (listen ⟨[], some limit⟩ script).1 = b ∧ b ≠ [] := by
  obtain ⟨before, piece, rest, rfl, hpass, hlast, rfl, hle⟩ := h
  rw [listen_to_newline hpass hlast hle, brought_append, brought_bytes]
  refine ⟨rfl, fun hnil => ?_⟩
  obtain ⟨-, rfl⟩ := List.append_eq_nil_iff.1 hnil
  cases hlast

theorem listen_eq_disconnected_iff {discarded : Nat} :
    (listen ⟨[], some limit⟩ script).2 = .close (.ok (.disconnected discarded)) ↔
      ∃ b, BreaksOff limit script b ∧ Directive.read? b = none ∧ discarded = b.length := by
  constructor
  · intro h
    rcases listen_cases limit script with ⟨b, hb, hl⟩ | ⟨failure, hl⟩ | ⟨command, -, hl⟩
    · rw [hl] at h
      rcases atEnd_eq_close h with ⟨text, ht⟩ | ⟨hplain, ht⟩
      · cases ht
      · cases ht
        exact ⟨b, hb, hplain, rfl⟩
    · rw [hl] at h; cases h
    · rw [hl] at h
      obtain ⟨text, ht⟩ := ofCommand_eq_close h
      cases ht
  · rintro ⟨b, hb, hplain, rfl⟩
    rw [(listen_of_breaksOff hb).2]
    unfold Decision.atEnd
    rw [hplain]; rfl

theorem listen_eq_stream_iff {fault : Fault} :
    (listen ⟨[], some limit⟩ script).2 = .close (.error (.stream fault)) ↔ ∃ b, FailsRead limit script b fault := by
  constructor
  · intro h
    have hnil : ([] : Bytes).length ≤ limit := Nat.zero_le limit
    obtain ⟨before, after, rfl, hpass, hle, hstop⟩ := exists_stop script hnil
    rw [listen_append after before hpass hle] at h
    rw [List.nil_append] at hle hstop h
    rcases hstop with rfl | ⟨a, rest, decision, rfl, hdec⟩
    · rcases atEnd_eq_close h with ⟨text, ht⟩ | ⟨-, ht⟩
      · cases ht
      · cases ht
    · rw [listen_of_decided hdec] at h
      obtain rfl : decision = _ := h
      obtain ⟨rfl, hkind⟩ := receive_eq_stream_iff.1 hdec
      exact ⟨_, before, rest, rfl, hpass, hkind, rfl, hle⟩
  · rintro ⟨b, hb⟩
    exact (listen_of_failsRead hb).2

/-- A script asks for a directive just if its session decides to follow it. -/
theorem asks_iff {d : Directive} : Asks limit script d ↔ (listen ⟨[], some limit⟩ script).2 = .seek d := by
  refine ⟨?_, asks_of_listen_eq_seek⟩
  rintro ⟨b, hends | hoff, hread⟩
  · rw [listen_of_completes hends]
    exact ofCommand_eq_seek_iff.2 hread
  · rw [(listen_of_breaksOff hoff).2]
    exact atEnd_eq_seek_iff.2 hread

end Listening

/-! ## Results of a settling -/

section Settling

variable {σ : Type} (sink : Sink σ) (chunk : Nat) {lock : Lock} {store : Store} (s : σ) {decision : Decision}

theorem settle_eq_disconnected_iff {discarded : Nat} :
    (settle sink chunk lock store s decision).2.2 = .ok (.disconnected discarded) ↔
      decision = .close (.ok (.disconnected discarded)) := by
  constructor
  · intro h
    rcases settle_cases sink chunk s lock store decision with
      ⟨result, hresult, -, heq⟩ | ⟨e, rfl, -, heq⟩ | ⟨d, offset, rfl, -, -, heq⟩
    · obtain rfl : result = .ok (.disconnected discarded) := by rw [heq] at h; exact h
      rcases hresult with rfl | ⟨failure, hf⟩
      · rfl
      · cases hf
    · rw [heq] at h
      cases hn : ((store.insert e).1.log.stream 0 chunk sink s).2 <;> simp [hn, Except.map] at h
    · rw [heq] at h
      cases hn : (store.log.stream offset chunk sink s).2 <;> simp [hn, Except.map] at h
  · rintro rfl; rfl

theorem offsetOf_ne_stream (log : Log) (a : Address) (fault : Fault) : log.offsetOf a ≠ .error (.stream fault) := by
  unfold Log.offsetOf
  split
  · simp
  · split <;> simp

theorem map_eq_error_iff {α β : Type} {f : α → β} {r : Except Failure α} {failure : Failure} :
    r.map f = .error failure ↔ r = .error failure := by
  cases r <;> simp [Except.map]

/-- A session fails as a stream does where a read has failed, or a call of the reply. -/
theorem settle_eq_stream_iff {fault : Fault} :
    (settle sink chunk lock store s decision).2.2 = .error (.stream fault) ↔
      decision = .close (.error (.stream fault)) ∨
      (∃ e, decision = .keep e ∧ store.acquire lock = .ok () ∧
        ((store.insert e).1.log.stream 0 chunk sink s).2 = .error (.stream fault)) ∨
      (∃ d offset, decision = .seek d ∧ store.acquire lock = .ok () ∧ store.log.offsetOf d.address = .ok offset ∧
        (store.log.stream offset chunk sink s).2 = .error (.stream fault)) := by
  cases decision with
  | close result => simp [settle]
  | keep e =>
    cases hl : store.acquire lock with
    | error failure =>
      obtain ⟨waited, rfl⟩ := Store.acquire_eq_error hl
      simp [settle, hl]
    | ok u => simp [settle_keep _ _ _ hl, map_eq_error_iff]
  | seek d =>
    cases hl : store.acquire lock with
    | error failure =>
      obtain ⟨waited, rfl⟩ := Store.acquire_eq_error hl
      simp [settle, hl]
    | ok u =>
      cases ho : store.log.offsetOf d.address with
      | error failure =>
        have hne : failure ≠ .stream fault := by
          rintro rfl
          exact offsetOf_ne_stream _ _ _ ho
        simp [settle_seek_of_nowhere _ _ _ hl ho, hne, ho]
      | ok offset => simp [settle_seek _ _ _ hl ho, map_eq_error_iff, ho]

end Settling

end Session

namespace Connection

/-! ## Ways to part -/

/-- How a connection comes to report that its peer is disconnected, with the number of bytes that it says were dropped
and the entry that its session has committed. The session has made `reads` up to the one that decided, these have
brought `received`, and it has settled on the store `met`. -/
inductive Parting {σ : Type} (settings : Session.Settings) (sink : Sink σ) (lock : Lock) (met : Store) (s : σ)
    (reads : List Session.Event) (received : Bytes) : Nat → Option Entry → Prop
  /-- The peer has closed before it ended a command. -/
  | closed (hoff : Session.BreaksOff settings.commandLimit reads received)
      (hplain : Directive.read? received = none) :
      Parting settings sink lock met s reads received received.length none
  /-- A read has failed. -/
  | readFailed {fault : Fault} (hkind : fault.kind.isDisconnect = true)
      (hread : Session.FailsRead settings.commandLimit reads received fault) :
      Parting settings sink lock met s reads received 0 none
  /-- The reply has failed, after the commit. -/
  | replyFailed {fault : Fault} (hkind : fault.kind.isDisconnect = true) {e : Entry}
      (hends : Session.Completes settings.commandLimit reads e) (hplain : Directive.read? e = none)
      (hlock : met.acquire lock = .ok ())
      (hreply : ((met.insert e).1.log.stream 0 settings.chunk sink s).2 = .error (.stream fault)) :
      Parting settings sink lock met s reads received 0 (some e)
  /-- The reply to a directive has failed. -/
  | seekFailed {fault : Fault} (hkind : fault.kind.isDisconnect = true) {d : Directive} {offset : Nat}
      (hasks : Session.Asks settings.commandLimit reads d) (hlock : met.acquire lock = .ok ())
      (hplace : met.log.offsetOf d.address = .ok offset)
      (hreply : (met.log.stream offset settings.chunk sink s).2 = .error (.stream fault)) :
      Parting settings sink lock met s reads received 0 none

theorem resultOf_eq_disconnected_iff {result : Except Failure Session.Outcome} {discarded : Nat} :
    resultOf result = .ok (.disconnected discarded) ↔
      result = .ok (.disconnected discarded) ∨
        discarded = 0 ∧ ∃ fault, fault.kind.isDisconnect = true ∧ result = .error (.stream fault) := by
  unfold resultOf
  split
  · next fault =>
    split
    · next hkind =>
      constructor
      · intro h
        cases h
        exact Or.inr ⟨rfl, fault, hkind, rfl⟩
      · rintro (h | ⟨rfl, -⟩)
        · cases h
        · rfl
    · next hkind =>
      refine iff_of_false (by simp) ?_
      rintro (h | ⟨-, other, hother, h⟩)
      · cases h
      · cases h
        exact hkind hother
  · next hne =>
    constructor
    · exact Or.inl
    · rintro (h | ⟨-, fault, -, h⟩)
      · exact h
      · exact absurd h (hne fault)

section Runs

variable {σ : Type} {settings : Session.Settings} {sink : Sink σ} {lock : Lock} {met : Store} {s : σ}
  {reads : List Session.Event} {discarded : Nat}

/-- What the session of a connection decides and does, as the connection sees it. -/
theorem resultOf_settle_iff :
    let heard := Session.listen ⟨[], some settings.commandLimit⟩ reads
    resultOf (Session.settle sink settings.chunk lock met s heard.2).2.2 = .ok (.disconnected discarded) ↔
      ∃ kept, Parting settings sink lock met s reads (Session.brought heard.1) discarded kept := by
  intro heard
  rw [resultOf_eq_disconnected_iff, Session.settle_eq_disconnected_iff, Session.listen_eq_disconnected_iff]
  constructor
  · rintro (⟨b, hoff, hplain, rfl⟩ | ⟨rfl, fault, hkind, hfault⟩)
    · obtain rfl : Session.brought heard.1 = b := (Session.listen_of_breaksOff hoff).1
      exact ⟨none, .closed hoff hplain⟩
    · rcases Session.settle_eq_stream_iff _ _ _ |>.1 hfault with
        hclose | ⟨e, hkeep, hlock, hreply⟩ | ⟨d, offset, hseek, hlock, hplace, hreply⟩
      · obtain ⟨b, hread⟩ := Session.listen_eq_stream_iff.1 hclose
        obtain rfl : Session.brought heard.1 = b := (Session.listen_of_failsRead hread).1
        exact ⟨none, .readFailed hkind hread⟩
      · obtain ⟨hends, hplain⟩ := Session.listen_eq_keep_iff.1 hkeep
        exact ⟨some e, .replyFailed hkind hends hplain hlock hreply⟩
      · exact ⟨none, .seekFailed hkind (Session.asks_iff.2 hseek) hlock hplace hreply⟩
  · rintro ⟨kept, hpart⟩
    cases hpart with
    | closed hoff hplain => exact Or.inl ⟨_, hoff, hplain, rfl⟩
    | @readFailed fault hkind hread =>
      refine Or.inr ⟨rfl, fault, hkind, (Session.settle_eq_stream_iff _ _ _).2 (Or.inl ?_)⟩
      exact Session.listen_eq_stream_iff.2 ⟨_, hread⟩
    | @replyFailed fault hkind e hends hplain hlock hreply =>
      refine Or.inr ⟨rfl, fault, hkind, (Session.settle_eq_stream_iff _ _ _).2 (Or.inr (Or.inl ?_))⟩
      exact ⟨e, Session.listen_eq_keep_iff.2 ⟨hends, hplain⟩, hlock, hreply⟩
    | @seekFailed fault hkind d offset hasks hlock hplace hreply =>
      refine Or.inr ⟨rfl, fault, hkind, (Session.settle_eq_stream_iff _ _ _).2 (Or.inr (Or.inr ?_))⟩
      exact ⟨d, offset, Session.asks_iff.1 hasks, hlock, hplace, hreply⟩

/-- The entry of a parting is the one that its session has inserted. -/
theorem Parting.kept_eq {received : Bytes} {kept : Option Entry}
    (h : Parting settings sink lock met s reads received discarded kept) :
    Session.kept? met lock (Session.listen ⟨[], some settings.commandLimit⟩ reads).2 = kept := by
  cases h with
  | closed hoff hplain =>
    rw [Session.listen_eq_disconnected_iff.2 ⟨_, hoff, hplain, rfl⟩]; rfl
  | readFailed _ hread => rw [Session.listen_eq_stream_iff.2 ⟨_, hread⟩]; rfl
  | replyFailed _ hends hplain hlock _ =>
    exact Session.kept?_eq_some_iff.2 ⟨Session.listen_eq_keep_iff.2 ⟨hends, hplain⟩, hlock⟩
  | seekFailed _ hasks _ _ _ => rw [Session.asks_iff.1 hasks]; rfl

/-- A parting has nothing committed, and as many bytes dropped as were received, just where the peer had closed or had
sent nothing. -/
theorem Parting.true_iff {kept : Option Entry} :
    let received := Session.brought (Session.listen ⟨[], some settings.commandLimit⟩ reads).1
    Parting settings sink lock met s reads received discarded kept →
      (kept = none ∧ discarded = received.length ↔
        received = [] ∨
          Session.BreaksOff settings.commandLimit reads received ∧ Directive.read? received = none) := by
  intro received hpart
  constructor
  · rintro ⟨hkept, hlen⟩
    cases hpart with
    | closed hoff hplain => exact Or.inr ⟨hoff, hplain⟩
    | readFailed => exact Or.inl (List.length_eq_zero_iff.1 hlen.symm)
    | replyFailed => cases hkept
    | seekFailed => exact Or.inl (List.length_eq_zero_iff.1 hlen.symm)
  · rintro (hnil | ⟨hoff, hplain⟩)
    · rw [hnil] at hpart ⊢
      cases hpart with
      | closed | readFailed | seekFailed => exact ⟨rfl, rfl⟩
      | replyFailed _ hends =>
        obtain ⟨hbrought, hne⟩ := Session.brought_of_completes hends
        exact absurd (hbrought.symm.trans hnil) hne
    -- what the session heard leads to one decision only
    · have hclosed := Session.listen_eq_disconnected_iff.2 ⟨received, hoff, hplain, rfl⟩
      cases hpart with
      | closed => exact ⟨rfl, rfl⟩
      | readFailed _ hread =>
        rw [Session.listen_eq_stream_iff.2 ⟨_, hread⟩] at hclosed
        cases hclosed
      | replyFailed _ hends hplain =>
        rw [Session.listen_eq_keep_iff.2 ⟨hends, hplain⟩] at hclosed
        cases hclosed
      | seekFailed _ hasks =>
        rw [Session.asks_iff.1 hasks] at hclosed
        cases hclosed

end Runs

/-! ## The main statement -/

theorem handle_eq {σ : Type} {settings : Session.Settings} (hchunk : settings.chunk < 2 ^ 63) (sink : Sink σ)
    (lock : Lock) (store : Store) (s : σ) (script : List Session.Event) :
    let report := Session.converse sink settings.chunk lock lock store s ⟨[], some settings.commandLimit⟩
      (Session.cutScript settings.buffer script)
    handle settings sink lock store s script = .ok { report with result := resultOf report.result } := by
  intro report
  have hsession : ({ settings := settings } : Session).settings.chunk < 2 ^ 63 := hchunk
  unfold handle
  rw [Session.handle_eq hsession]

/-- A connection reports a disconnected peer in four ways, and in no other: the peer has closed, a read has failed as it
does when the peer is gone, or the reply has, after a commit or to a directive. Whatever arrives, whatever the sink does
and whether or not the lock is had, the log has then grown by the entry that was committed, if there is one. The report
is true, so that nothing was committed and the bytes said to be dropped are those that were received, just if the peer
had closed or had sent nothing. -/
theorem disconnected_iff_parting {σ : Type} (settings : Session.Settings) (hchunk : settings.chunk < 2 ^ 63)
    (sink : Sink σ) (lock : Lock) (store : Store) (s : σ) (script : List Session.Event) :
    let reads := Session.cutScript settings.buffer script
    ∃ report used, handle settings sink lock store s script = .ok report ∧ reads = used ++ report.rest ∧
      let met := store.commitAll lock (Session.foreign used)
      let received := Session.brought used
      (∀ discarded, report.result = .ok (.disconnected discarded) ↔
        ∃ kept, Parting settings sink lock met s reads received discarded kept) ∧
      ∀ discarded kept, Parting settings sink lock met s reads received discarded kept →
        report.store = (kept.elim met fun e => (met.insert e).1) ∧
        (kept = none ∧ discarded = received.length ↔
          received = [] ∨
            Session.BreaksOff settings.commandLimit reads received ∧ Directive.read? received = none) := by
  intro reads
  obtain ⟨hreport, hrest⟩ := Session.converse_eq_settle sink settings.chunk lock lock s reads store
    ⟨[], some settings.commandLimit⟩
  refine ⟨_, (Session.listen ⟨[], some settings.commandLimit⟩ reads).1, handle_eq hchunk sink lock store s script,
    hrest, ?_⟩
  intro met received
  have hstore := congrArg (·.1) hreport
  have hresult := congrArg (·.2.2) hreport
  dsimp only at hstore hresult
  refine ⟨fun discarded => ?_, fun discarded kept hpart => ⟨?_, hpart.true_iff⟩⟩
  · dsimp only
    rw [hresult]
    exact resultOf_settle_iff
  · dsimp only
    rw [hstore, Session.settle_fst, hpart.kept_eq]

/-- A peer that closes after two reads, with a commit of another client between them. -/
theorem disconnected_iff_parting_closed :
    let settings : Session.Settings := ⟨1024, 8, 0, 0⟩
    let script : List Session.Event :=
      [.arrival (.bytes [97, 98]), .commit [120, 10], .arrival (.bytes [99]), .arrival (.bytes [])]
    settings.chunk < 2 ^ 63 ∧ ∃ report,
      handle settings Outlet.accepting.sink .free { log := Ring.empty 2 } [] script = .ok report ∧
      report.result = .ok (.disconnected 3) ∧
      ∃ received, Session.BreaksOff 8 (Session.cutScript 1024 script) received ∧ received.length = 3 := by
  intro settings script
  have hchunk : settings.chunk < 2 ^ 63 := by decide
  obtain ⟨report, used, hrun, -, hiff, -⟩ :=
    disconnected_iff_parting settings hchunk Outlet.accepting.sink .free { log := Ring.empty 2 } [] script
  refine ⟨hchunk, report, hrun, ?_⟩
  have hresult : report.result = .ok (.disconnected 3) := by
    rw [← Except.ok.inj hrun]
    decide
  obtain ⟨kept, hpart⟩ := (hiff 3).1 hresult
  refine ⟨hresult, Session.brought used, ?_⟩
  -- a report of dropped bytes leaves one way to part
  generalize hn : 3 = discarded at hpart
  cases hpart with
  | closed hoff _ => exact ⟨hoff, rfl⟩
  | readFailed | replyFailed | seekFailed => cases hn

/-- A report that is not true: the peer is reported as disconnected with nothing dropped after its command was
committed, where the reply cannot be flushed, and after three bytes were dropped, where a read fails. -/
theorem disconnected_after_commit :
    let settings : Session.Settings := ⟨1024, 64, 0, 0⟩
    let store : Store := { log := Ring.empty 2 }
    (∃ report, handle settings (Outlet.limited none none (some ⟨.brokenPipe, none⟩)).sink .free store []
        [.arrival (.bytes [97, 10])] = .ok report ∧
      report.result = .ok (.disconnected 0) ∧ report.store.log.toList = [[97, 10]]) ∧
    (∃ report, handle settings Outlet.accepting.sink .free store []
        [.arrival (.bytes [97, 98, 99]), .arrival (.fault ⟨.connectionReset, none⟩)] = .ok report ∧
      report.result = .ok (.disconnected 0) ∧ report.store.log.toList = []) :=
  ⟨⟨_, rfl, rfl, by decide⟩, ⟨_, rfl, rfl, by decide⟩⟩

end Connection

end LineRing
