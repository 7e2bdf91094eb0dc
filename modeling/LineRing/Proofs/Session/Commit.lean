/-
A session commits once or not at all. Main statement: against any script, with any peer and with the lock had or not, a
session ends, and it has left the log as others made it, but for one insertion at the most, made last. It inserts what
its reads brought up to the first that ends a command (`Completes`), and only if that is no directive, is within the
limit, and the lock is had; before that it says nothing to its peer.
-/
import LineRing.Directive.Lemmas
import LineRing.Proofs.Session.Script

namespace LineRing

namespace Session

/-! ## What a script asks for -/

/-- A read of the script ends the command `e`: the events before it decide nothing, its last byte is a newline, and all
reads up to it bring `e`, which is within the limit. -/
def Completes (limit : Nat) (script : List Event) (e : Entry) : Prop :=
  ∃ before piece rest, script = before ++ .arrival (.bytes piece) :: rest ∧ (∀ ev ∈ before, ev.isPassing = true) ∧
    piece.getLast? = some newline ∧ e = brought before ++ piece ∧ e.length ≤ limit

/-- The peer closes, or the script is over, when its reads have brought `b` and ended no command. -/
def BreaksOff (limit : Nat) (script : List Event) (b : Bytes) : Prop :=
  ∃ before, (script = before ∨ ∃ rest, script = before ++ .arrival (.bytes []) :: rest) ∧
    (∀ ev ∈ before, ev.isPassing = true) ∧ b = brought before ∧ b.length ≤ limit

/-- What the script brings is the directive `d`, with its newline or without. -/
def Asks (limit : Nat) (script : List Event) (d : Directive) : Prop :=
  ∃ b, (Completes limit script b ∨ BreaksOff limit script b) ∧ Directive.read? b = some (.ok d)

/-! ## What is decided -/

section Decisions

variable {limit : Nat} {script : List Event}

/-- A script breaks off, has its session fail, or completes a command. -/
theorem listen_cases (limit : Nat) (script : List Event) :
    (∃ b, BreaksOff limit script b ∧ (listen ⟨[], some limit⟩ script).2 = .atEnd ⟨b, some limit⟩) ∨
    (∃ failure, (listen ⟨[], some limit⟩ script).2 = .close (.error failure)) ∨
    (∃ e, Completes limit script e ∧ (listen ⟨[], some limit⟩ script).2 = .ofCommand e) := by
  have hnil : ([] : Bytes).length ≤ limit := Nat.zero_le limit
  obtain ⟨before, after, rfl, hpass, hle, hstop⟩ := exists_stop script hnil
  rw [listen_append after before hpass hle]
  rw [List.nil_append] at hle hstop ⊢
  rcases hstop with rfl | ⟨a, rest, decision, rfl, hdec⟩
  · exact Or.inl ⟨_, ⟨before, Or.inl (List.append_nil _), hpass, rfl, hle⟩, rfl⟩
  · rw [listen_of_decided hdec]
    rcases receive_cases hle a with ⟨-, -, hrec⟩ | ⟨failure, -, hrec⟩ | ⟨rfl, hrec⟩ | ⟨piece, rfl, hlast, hlen, hrec⟩
    -- the arrival at the stop decides, so it is none that the session reads on after
    · rw [hrec] at hdec; cases hdec
    · rw [hrec] at hdec; cases hdec
      exact Or.inr (Or.inl ⟨failure, rfl⟩)
    · rw [hrec] at hdec; cases hdec
      exact Or.inl ⟨_, ⟨before, Or.inr ⟨rest, rfl⟩, hpass, rfl, hle⟩, rfl⟩
    · rw [hrec] at hdec; cases hdec
      exact Or.inr (Or.inr ⟨_, ⟨before, piece, rest, rfl, hpass, hlast, rfl, hlen⟩, rfl⟩)

/-- Listening stops at the first read that ends in a newline. -/
theorem listen_to_newline {before : List Event} {piece : Bytes} (hpass : ∀ ev ∈ before, ev.isPassing = true)
    (hlast : piece.getLast? = some newline) (hle : (brought before ++ piece).length ≤ limit) (rest : List Event) :
    listen ⟨[], some limit⟩ (before ++ .arrival (.bytes piece) :: rest) =
      (before ++ [.arrival (.bytes piece)], .ofCommand (brought before ++ piece)) := by
  have hbefore : (brought before).length ≤ limit := by
    rw [List.length_append] at hle; omega
  rw [listen_append _ before hpass hbefore, List.nil_append]
  rcases receive_cases hbefore (.bytes piece) with
    ⟨hp, -⟩ | ⟨-, ⟨fault, hf, -⟩ | hlt, -⟩ | ⟨hnil, -⟩ | ⟨_, heq, -, -, hrec⟩
  · simp [Event.isPassing, hlast] at hp
  · cases hf
  · rw [brought_bytes] at hlt; omega
  · cases hnil; cases hlast
  · cases heq
    rw [listen_of_decided hrec]

/-- A command that a script completes is what its session decides about. -/
theorem listen_of_completes {e : Entry} (h : Completes limit script e) :
    (listen ⟨[], some limit⟩ script).2 = .ofCommand e := by
  obtain ⟨before, piece, rest, rfl, hpass, hlast, rfl, hle⟩ := h
  rw [listen_to_newline hpass hlast hle]

theorem listen_eq_keep_iff {e : Entry} :
    (listen ⟨[], some limit⟩ script).2 = .keep e ↔ Completes limit script e ∧ Directive.read? e = none := by
  constructor
  · intro h
    rcases listen_cases limit script with ⟨b, -, hl⟩ | ⟨failure, hl⟩ | ⟨command, hc, hl⟩
    · rw [hl] at h
      exact absurd h (atEnd_ne_keep _ e)
    · rw [hl] at h; cases h
    · rw [hl] at h
      obtain ⟨rfl, hread⟩ := ofCommand_eq_keep_iff.1 h
      exact ⟨hc, hread⟩
  · rintro ⟨hc, hread⟩
    rw [listen_of_completes hc]
    exact ofCommand_eq_keep_iff.2 ⟨rfl, hread⟩

theorem asks_of_listen_eq_seek {d : Directive} (h : (listen ⟨[], some limit⟩ script).2 = .seek d) :
    Asks limit script d := by
  rcases listen_cases limit script with ⟨b, hb, hl⟩ | ⟨failure, hl⟩ | ⟨command, hc, hl⟩
  · rw [hl] at h
    exact ⟨b, Or.inr hb, atEnd_eq_seek_iff.1 h⟩
  · rw [hl] at h; cases h
  · rw [hl] at h
    exact ⟨command, Or.inl hc, ofCommand_eq_seek_iff.1 h⟩

theorem sound_listen (limit : Nat) (script : List Event) :
    (Stage.decided (listen ⟨[], some limit⟩ script).2).Sound limit := by
  rcases listen_cases limit script with ⟨b, -, hl⟩ | ⟨failure, hl⟩ | ⟨command, hc, hl⟩
  · rw [hl]; exact sound_atEnd limit _
  · rw [hl]; exact Or.inl ⟨failure, rfl⟩
  · obtain ⟨before, piece, rest, -, -, hlast, rfl, hle⟩ := hc
    rw [hl]
    refine sound_ofCommand ?_ hle
    rw [List.getLast?_append_of_ne_nil _ (by rintro rfl; cases hlast)]
    exact hlast

end Decisions

/-! ## What a result says -/

/-- Whether a result rules out that its session has committed: all but the outcome that says so, and the faults that a
reply may meet after the commit. -/
def deniesCommit : Except Failure Outcome → Bool
  | .ok (.committed ..) => false
  | .error (.stream _) => false
  | .error (.shortWrite ..) => false
  | _ => true

theorem deniesCommit_of_isRetryable {failure : Failure} (h : failure.isRetryable = true) :
    deniesCommit (.error failure) = true := by
  cases failure with
  | lockTimeout waited => rfl
  | _ => cases h

section Replies

variable {σ : Type} (sink : Sink σ)

/-- Sending fails only as the sink fails, or falls short. -/
theorem deniesCommit_sendAll (slices : List Bytes) :
    ∀ {s t : σ} {failure : Failure}, sink.sendAll s slices = (t, .error failure) →
      deniesCommit (.error failure) = false := by
  induction slices with
  | nil =>
    intro s t failure h
    cases h
  | cons slice rest ih =>
    intro s t failure h
    unfold Sink.sendAll at h
    split at h
    · cases h; rfl
    · split at h
      · exact ih h
      · cases h; rfl

theorem deniesCommit_stream (log : Log) (offset chunk : Nat) (s : σ) (evicted : Bool) :
    deniesCommit ((log.stream offset chunk sink s).2.map (.committed evicted)) = false := by
  unfold Log.stream
  dsimp only
  split
  · rename_i hsend
    exact deniesCommit_sendAll sink _ hsend
  · split <;> rfl

end Replies

/-! ## What settling touches -/

section Touching

variable {σ : Type} (sink : Sink σ) (chunk : Nat) {lock : Lock} {store : Store} (s : σ) {decision : Decision}

/-- A sink is not touched before the lock is had, and the entry inserted or the place found. -/
theorem settle_sink_ne (h : (settle sink chunk lock store s decision).2.1 ≠ s) :
    store.acquire lock = .ok () ∧ (kept? store lock decision ≠ none ∨
      ∃ d offset, decision = .seek d ∧ store.log.offsetOf d.address = .ok offset) := by
  rcases settle_cases sink chunk s lock store decision with
    ⟨result, -, -, heq⟩ | ⟨e, rfl, hl, -⟩ | ⟨d, offset, rfl, hl, ho, -⟩
  · rw [heq] at h
    exact absurd rfl h
  · refine ⟨hl, Or.inl ?_⟩
    rw [kept?_eq_some_iff.2 ⟨rfl, hl⟩]
    exact Option.some_ne_none e
  · exact ⟨hl, Or.inr ⟨d, offset, rfl, ho⟩⟩

theorem kept?_of_deniesCommit (h : deniesCommit (settle sink chunk lock store s decision).2.2 = true) :
    kept? store lock decision = none := by
  refine Option.eq_none_iff_forall_ne_some.2 fun e he => ?_
  obtain ⟨rfl, hl⟩ := kept?_eq_some_iff.1 he
  rw [settle_keep _ _ _ hl, deniesCommit_stream] at h
  cases h

end Touching

/-! ## The main statement -/

variable {σ : Type}

theorem handle_eq {session : Session} (hchunk : session.settings.chunk < 2 ^ 63) (sink : Sink σ) (lock others : Lock)
    (store : Store) (s : σ) (script : List Event) :
    session.handle sink lock store s script others =
      .ok ({ session with phase := .closed }, converse sink session.settings.chunk lock others store s
        ⟨[], some session.settings.commandLimit⟩ (cutScript session.settings.buffer script)) := by
  have hbuffer : session.settings.buffer ≤ allocationLimit := by
    unfold Settings.buffer allocationLimit UInt64.size; omega
  unfold handle
  exact if_pos hbuffer

/-- A session commits once or not at all. Against any script it ends, with the log as others have left it by then, but
for one insertion at the most, made last. The entry inserted is what its reads bring up to the first that ends in a
newline, and it is inserted just if that is within the limit, does not begin as a directive does, and the lock is had.
The session does not touch its sink, be it one that records every call, before it has the lock, and has inserted or
has found the place asked for. Its result says that it has committed only if it has, and rules it out only if it has
not; so one that may be retried has not committed. -/
theorem handle_commits_at_most_once (session : Session) (hchunk : session.settings.chunk < 2 ^ 63) (sink : Sink σ)
    (lock others : Lock) (store : Store) (s : σ) (script : List Event) :
    let limit := session.settings.commandLimit
    let reads := cutScript session.settings.buffer script
    ∃ closed report used kept, session.handle sink lock store s script others = .ok (closed, report) ∧
      closed.phase = .closed ∧ reads = used ++ report.rest ∧
      let met := store.commitAll others (foreign used)
      report.store = (kept.elim met fun e => (met.insert e).1) ∧
      (∀ e, kept = some e ↔ Completes limit reads e ∧ ¬ Directive.marker <+: e ∧ store.acquire lock = .ok ()) ∧
      (report.sink ≠ s → store.acquire lock = .ok () ∧
        (kept ≠ none ∨ ∃ d offset, Asks limit reads d ∧ met.log.offsetOf d.address = .ok offset)) ∧
      (∀ evicted sent, report.result = .ok (.committed evicted sent) → kept ≠ none) ∧
      (deniesCommit report.result = true → kept = none) ∧
      (∀ failure, report.result = .error failure → failure.isRetryable = true → kept = none) := by
  intro limit reads
  obtain ⟨hreport, hrest⟩ :=
    converse_eq_settle sink session.settings.chunk lock others s reads store ⟨[], some limit⟩
  refine ⟨_, _, (listen ⟨[], some limit⟩ reads).1,
    kept? (store.commitAll others (foreign (listen ⟨[], some limit⟩ reads).1)) lock (listen ⟨[], some limit⟩ reads).2,
    handle_eq hchunk sink lock others store s script, rfl, hrest, ?_⟩
  intro met
  -- whether the lock is had does not depend on what others have committed meanwhile
  have hlock : met.acquire lock = store.acquire lock := Store.acquire_commitAll lock others _ store
  have hstore := congrArg (·.1) hreport
  have hsink := congrArg (·.2.1) hreport
  have hresult := congrArg (·.2.2) hreport
  dsimp only at hstore hsink hresult
  have hdeny : deniesCommit _ = true → kept? met lock (listen ⟨[], some limit⟩ reads).2 = none :=
    kept?_of_deniesCommit sink session.settings.chunk s
  rw [← hresult] at hdeny
  refine ⟨?_, ?_, ?_, ?_, hdeny, ?_⟩
  · rw [hstore, settle_fst]
  · intro e
    rw [kept?_eq_some_iff, listen_eq_keep_iff, Directive.read?_eq_none_iff, hlock, and_assoc]
  · intro hne
    rw [hsink] at hne
    obtain ⟨hl, hkept | ⟨d, offset, hd, ho⟩⟩ := settle_sink_ne _ _ _ hne
    · exact ⟨hlock ▸ hl, Or.inl hkept⟩
    · exact ⟨hlock ▸ hl, Or.inr ⟨d, offset, asks_of_listen_eq_seek hd, ho⟩⟩
  · intro evicted sent h
    rw [hresult] at h
    obtain ⟨e, hd, hl, -⟩ := settle_eq_committed _ _ _ (sound_listen limit reads) h
    rw [kept?_eq_some_iff.2 ⟨hd, hl⟩]
    exact Option.some_ne_none e
  · intro failure hf hretry
    refine hdeny ?_
    rw [hf]
    exact deniesCommit_of_isRetryable hretry

/-- A command that comes in two reads, with a commit of another client, an interrupted read and too many bytes, and a
reply that cannot be flushed. -/
theorem handle_commits_at_most_once_broken_pipe :
    let session : Session := { settings := ⟨2, 8, 0, 0⟩ }
    let store : Store := { log := Ring.empty 2 }
    let outlet := Outlet.limited none none (some ⟨.brokenPipe, none⟩)
    let script : List Event :=
      [.arrival (.bytes [97]), .commit [120, 10], .arrival (.fault ⟨.interrupted, none⟩),
        .arrival (.bytes [98, 10, 99])]
    session.settings.chunk < 2 ^ 63 ∧ ∃ closed report,
      session.handle outlet.sink .free store [] script = .ok (closed, report) ∧
      report.rest = [.arrival (.bytes [99])] ∧ report.store.log.toList = [[120, 10], [97, 98, 10]] ∧
      deniesCommit report.result = false := by
  intro session store outlet script
  have hchunk : session.settings.chunk < 2 ^ 63 := by decide
  obtain ⟨closed, report, used, kept, hrun, -, -, -, hkept, -, -, hdeny, -⟩ :=
    handle_commits_at_most_once session hchunk outlet.sink .free .free store [] script
  have hcompletes : Completes session.settings.commandLimit (cutScript session.settings.buffer script) [97, 98, 10] :=
    ⟨script.take 3, [98, 10], [.arrival (.bytes [99])], rfl, by decide, rfl, rfl, by decide⟩
  have hcommand : kept = some [97, 98, 10] := (hkept _).2 ⟨hcompletes, by decide, rfl⟩
  refine ⟨hchunk, closed, report, hrun, ?_⟩
  obtain ⟨rfl, rfl⟩ := Prod.mk.inj (Except.ok.inj hrun)
  refine ⟨by decide, by decide, Bool.eq_false_iff.2 fun h => ?_⟩
  rw [hdeny h] at hcommand
  cases hcommand

end Session

end LineRing
