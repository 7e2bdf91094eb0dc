/-
How the bytes of a peer arrive does not matter. Main statement: two sessions that get the same bytes, with no newline
but at their end, and then the end of the stream, end alike and send the same reply, however these bytes are cut into
reads, whatever their buffers hold, and wherever reads are interrupted (`handle_eq_of_delivers`).

Both settle what `Decision.ofBytes` says of the bytes as a whole. Only the size at which a command is found to be too
large shows where it was cut.
-/
import LineRing.Proofs.Log.Reply
import LineRing.Proofs.Session.Seek

namespace LineRing

/-- A failure without the size that a command had when it was found to be too large. -/
def Failure.withoutSize : Failure → Failure
  | .tooLarge _ limit => .tooLarge 0 limit
  | failure => failure

namespace Session

/-! ## Deliveries -/

/-- A script in which a peer sends these bytes and closes. Each read brings some of them, or was interrupted. -/
inductive Delivers : List Event → Bytes → Prop
  | atEnd : Delivers [] []
  | closed (rest : List Event) : Delivers (.arrival (.bytes []) :: rest) []
  | piece {piece : Bytes} {script : List Event} {bytes : Bytes} (hne : piece ≠ []) (h : Delivers script bytes) :
      Delivers (.arrival (.bytes piece) :: script) (piece ++ bytes)
  | interrupted {fault : Fault} {script : List Event} {bytes : Bytes} (hkind : fault.kind = .interrupted)
      (h : Delivers script bytes) : Delivers (.arrival (.fault fault) :: script) bytes

theorem Delivers.sending {script : List Event} {bytes : Bytes} (h : Delivers script bytes) :
    ∀ {sent : List Bytes}, (∀ piece ∈ sent, piece ≠ []) →
      Delivers (sending sent ++ script) (sent.flatten ++ bytes)
  | [], _ => h
  | first :: rest, hne => by
    obtain ⟨hfirst, hrest⟩ := List.forall_mem_cons.1 hne
    rw [List.flatten_cons, List.append_assoc]
    exact .piece hfirst (h.sending hrest)

theorem Delivers.cutScript {script : List Event} {bytes : Bytes} (h : Delivers script bytes) (buffer : Nat) :
    Delivers (cutScript buffer script) bytes := by
  induction h with
  | atEnd => exact .atEnd
  | closed rest => exact .closed _
  | interrupted hkind _ ih => exact .interrupted hkind ih
  | @piece piece script bytes hne _ ih =>
    have hpieces : ∀ p ∈ pieces buffer piece, p ≠ [] := fun p hp =>
      List.length_pos_iff.1 (length_of_mem_pieces hp).1
    have hcut := ih.sending hpieces
    rw [flatten_pieces, ← cut_bytes buffer hne] at hcut
    exact hcut

theorem Delivers.foreign_listen {script : List Event} {bytes : Bytes} (h : Delivers script bytes) :
    ∀ draft : Draft, foreign (listen draft script).1 = [] := by
  have harrival : ∀ {a : Arrival} {rest : List Event}, (∀ draft, foreign (listen draft rest).1 = []) →
      ∀ draft, foreign (listen draft (.arrival a :: rest)).1 = [] := by
    intro a rest hrest draft
    cases hrec : receive draft a with
    | receiving next => rw [listen_of_receiving hrec, foreign_arrival, hrest]
    | decided decision => rw [listen_of_decided hrec]; rfl
  induction h with
  | atEnd => exact fun _ => rfl
  | closed rest => exact fun _ => rfl
  | piece _ _ ih => exact harrival ih
  | interrupted _ _ ih => exact harrival ih

/-! ## What is decided -/

/-- What a session decides about all that a peer sends before it closes, where only the last byte may end a command. -/
def Decision.ofBytes (limit : Nat) (bytes : Bytes) : Decision :=
  if limit < bytes.length then .close (.error (.tooLarge bytes.length limit))
  else if bytes.getLast? = some newline then .ofCommand bytes
  else .atEnd ⟨bytes, some limit⟩

/-- A decision without the size at which a command was found to be too large. -/
def Decision.withoutSize : Decision → Decision
  | .close (.error failure) => .close (.error failure.withoutSize)
  | decision => decision

theorem receive_bytes (got : Bytes) {piece : Bytes} (limit : Nat) (hne : piece ≠ []) :
    receive ⟨got, some limit⟩ (.bytes piece) =
      if limit < (got ++ piece).length then .decided (.close (.error (.tooLarge (got ++ piece).length limit)))
      else if (got ++ piece).getLast? = some newline then .decided (.ofCommand (got ++ piece))
      else .receiving ⟨got ++ piece, some limit⟩ := by
  have hrec : receive ⟨got, some limit⟩ (.bytes piece) = accept ⟨got, some limit⟩ piece := by
    cases piece with
    | nil => exact absurd rfl hne
    | cons b tail => rfl
  rw [hrec, List.length_append]
  rcases accept_cases ⟨got, some limit⟩ piece with ⟨failure, happ, hacc⟩ | ⟨hle, hacc⟩
  · obtain ⟨l, hl, hlt, rfl⟩ := Draft.append_eq_error_iff.1 happ
    cases hl
    rw [hacc]
    exact (if_pos hlt).symm
  · rw [if_neg (Nat.not_lt.2 (hle limit rfl))]
    rcases hacc with ⟨hlast, hacc⟩ | ⟨hlast, hacc⟩
    · rw [hacc, if_neg hlast]
    · rw [hacc, if_pos hlast]

theorem eq_nil_of_newline_mem {piece bytes : Bytes} (hmem : newline ∈ piece)
    (hline : newline ∉ (piece ++ bytes).dropLast) : bytes = [] := by
  by_contra hne
  rw [List.dropLast_append_of_ne_nil hne] at hline
  exact hline (List.mem_append_left _ hmem)

theorem newline_mem_of_getLast? {got piece : Bytes} (hgot : newline ∉ got)
    (hlast : (got ++ piece).getLast? = some newline) : newline ∈ piece :=
  (List.mem_append.1 (List.mem_of_getLast? hlast)).resolve_left hgot

theorem newline_notMem_of_getLast? {bytes : Bytes} (hline : newline ∉ bytes.dropLast)
    (hlast : bytes.getLast? ≠ some newline) : newline ∉ bytes := by
  rcases List.eq_nil_or_concat bytes with rfl | ⟨front, b, rfl⟩
  · exact List.not_mem_nil
  · rw [List.concat_eq_append] at *
    rw [List.dropLast_concat] at hline
    rw [List.getLast?_concat] at hlast
    simpa [hline, eq_comm] using hlast

/-- However bytes are delivered, the session decides about them as a whole, up to the size at which they are found to be
too many. -/
theorem listen_delivers {limit : Nat} {script : List Event} {bytes : Bytes} (h : Delivers script bytes) :
    ∀ {got : Bytes}, got.length ≤ limit → newline ∉ got → newline ∉ bytes.dropLast →
      (listen ⟨got, some limit⟩ script).2.withoutSize = (Decision.ofBytes limit (got ++ bytes)).withoutSize := by
  have hend : ∀ {got : Bytes}, got.length ≤ limit → newline ∉ got →
      Decision.ofBytes limit (got ++ []) = .atEnd ⟨got, some limit⟩ := by
    intro got hgot hnew
    rw [List.append_nil, Decision.ofBytes, if_neg (Nat.not_lt.2 hgot),
      if_neg fun hlast => hnew (List.mem_of_getLast? hlast)]
  induction h with
  | atEnd =>
    intro got hgot hnew _
    rw [hend hgot hnew]; rfl
  | closed rest =>
    intro got hgot hnew _
    rw [hend hgot hnew]; rfl
  | @interrupted fault script bytes hkind _ ih =>
    intro got hgot hnew hline
    have hrec : receive ⟨got, some limit⟩ (.fault fault) = .receiving ⟨got, some limit⟩ := if_pos hkind
    rw [listen_of_receiving hrec]
    exact ih hgot hnew hline
  | @piece piece script bytes hne _ ih =>
    intro got hgot hnew hline
    have hrec := receive_bytes got limit hne
    by_cases hlarge : limit < (got ++ piece).length
    -- both are too large, the whole perhaps more so than what had come by then
    · rw [if_pos hlarge] at hrec
      have hall : limit < (got ++ (piece ++ bytes)).length := by
        simp only [List.length_append] at hlarge ⊢; omega
      rw [listen_of_decided hrec, Decision.ofBytes, if_pos hall]; rfl
    rw [if_neg hlarge] at hrec
    by_cases hlast : (got ++ piece).getLast? = some newline
    -- the piece ends the command, and so it is the last one
    · obtain rfl := eq_nil_of_newline_mem (newline_mem_of_getLast? hnew hlast) hline
      rw [if_pos hlast] at hrec
      rw [listen_of_decided hrec, List.append_nil, Decision.ofBytes, if_neg hlarge, if_pos hlast]
    · have hpiece : newline ∉ piece := by
        intro hmem
        obtain rfl := eq_nil_of_newline_mem hmem hline
        rw [List.append_nil] at hline
        rw [List.getLast?_append_of_ne_nil _ hne] at hlast
        exact newline_notMem_of_getLast? hline hlast hmem
      have hbytes : newline ∉ bytes.dropLast := by
        intro hmem
        have hb : bytes ≠ [] := by rintro rfl; cases hmem
        rw [List.dropLast_append_of_ne_nil hb] at hline
        exact hline (List.mem_append_right _ hmem)
      rw [if_neg hlast] at hrec
      rw [listen_of_receiving hrec, ← List.append_assoc]
      exact ih (Nat.le_of_not_lt hlarge) (by simp [hnew, hpiece]) hbytes

/-! ## What is settled -/

/-- What shows of a settling but for the calls that the reply was sent by: the store, the bytes sent, and the result up
to the size of a command that is too large. -/
def Settled (r : Store × Transcript × Except Failure Outcome) : Store × Bytes × Except Failure Outcome :=
  (r.1, r.2.1.accepted, r.2.2.mapError Failure.withoutSize)

/-- The size of the slices does not show, where the peer takes everything. -/
theorem settled_chunk (chunk chunk' : Nat) (lock : Lock) (store : Store) (decision : Decision) :
    Settled (settle Outlet.accepting.sink chunk lock store [] decision) =
      Settled (settle Outlet.accepting.sink chunk' lock store [] decision) := by
  have hstream : ∀ (log : Log) (offset chunk : Nat),
      (log.stream offset chunk Outlet.accepting.sink []).1.accepted = log.bytes.drop offset ∧
      (log.stream offset chunk Outlet.accepting.sink []).2 = .ok (log.bytes.drop offset).length := by
    intro log offset chunk
    have heq := Outlet.stream_accepting log offset chunk []
    have hacc := (Outlet.accepted_of_stream_eq_ok _ heq).1
    rw [heq]
    exact ⟨hacc, rfl⟩
  cases decision with
  | close result => rfl
  | keep e =>
    cases hl : store.acquire lock with
    | error failure => simp only [settle, hl]
    | ok u => rw [settle_keep _ _ _ hl, settle_keep _ _ _ hl]; simp only [Settled, hstream]
  | seek d =>
    cases hl : store.acquire lock with
    | error failure => simp only [settle, hl]
    | ok u =>
      cases ho : store.log.offsetOf d.address with
      | error failure => rw [settle_seek_of_nowhere _ _ _ hl ho, settle_seek_of_nowhere _ _ _ hl ho]
      | ok offset => rw [settle_seek _ _ _ hl ho, settle_seek _ _ _ hl ho]; simp only [Settled, hstream]

theorem settled_withoutSize (chunk : Nat) (lock : Lock) (store : Store) (decision : Decision) :
    Settled (settle Outlet.accepting.sink chunk lock store [] decision.withoutSize) =
      Settled (settle Outlet.accepting.sink chunk lock store [] decision) := by
  rcases decision with e | d | (failure | outcome)
  · rfl
  · rfl
  · cases failure <;> rfl
  · rfl

/-- A session that is delivered bytes settles what is decided about them as a whole. -/
theorem handle_delivers (session : Session) (hchunk : session.settings.chunk < 2 ^ 63) (lock : Lock) (store : Store)
    {script : List Event} {bytes : Bytes} (h : Delivers script bytes) (hline : newline ∉ bytes.dropLast) :
    ∃ closed report, session.handle Outlet.accepting.sink lock store [] script = .ok (closed, report) ∧
      Settled (report.store, report.sink, report.result) =
        Settled (settle Outlet.accepting.sink 0 lock store [] (.ofBytes session.settings.commandLimit bytes)) := by
  refine ⟨_, _, handle_eq hchunk Outlet.accepting.sink lock lock store [] script, ?_⟩
  have hcut := h.cutScript session.settings.buffer
  obtain ⟨hreport, -⟩ := converse_eq_settle Outlet.accepting.sink session.settings.chunk lock lock []
    (cutScript session.settings.buffer script) store ⟨[], some session.settings.commandLimit⟩
  have hdecided := listen_delivers hcut (Nat.zero_le session.settings.commandLimit) List.not_mem_nil hline
  rw [hreport, hcut.foreign_listen, Store.commitAll_nil, ← settled_withoutSize, hdecided, settled_withoutSize,
    List.nil_append]
  exact settled_chunk _ _ _ _ _

/-! ## The main statement -/

/-- Two sessions with the same limit, on the same store and with the lock found alike, end alike, if they are delivered
the same bytes, in which only the last may be a newline. They leave the same store, have sent the same bytes to peers
that take everything, and their results differ at most in the size of a command that is too large. Neither the pieces in
which the bytes come, nor interrupted reads, nor the sizes of buffers and slices make a difference. -/
theorem handle_eq_of_delivers {first second : Session}
    (hlimit : first.settings.commandLimit = second.settings.commandLimit) (hfirst : first.settings.chunk < 2 ^ 63)
    (hsecond : second.settings.chunk < 2 ^ 63) (lock : Lock) (store : Store) {script₁ script₂ : List Event}
    {bytes : Bytes} (h₁ : Delivers script₁ bytes) (h₂ : Delivers script₂ bytes) (hline : newline ∉ bytes.dropLast) :
    ∃ closed₁ report₁ closed₂ report₂,
      first.handle Outlet.accepting.sink lock store [] script₁ = .ok (closed₁, report₁) ∧
      second.handle Outlet.accepting.sink lock store [] script₂ = .ok (closed₂, report₂) ∧
      report₁.store = report₂.store ∧ report₁.sink.accepted = report₂.sink.accepted ∧
      report₁.result.mapError Failure.withoutSize = report₂.result.mapError Failure.withoutSize := by
  obtain ⟨closed₁, report₁, hrun₁, heq₁⟩ := first.handle_delivers hfirst lock store h₁ hline
  obtain ⟨closed₂, report₂, hrun₂, heq₂⟩ := second.handle_delivers hsecond lock store h₂ hline
  rw [hlimit] at heq₁
  obtain ⟨hstore, hrest⟩ := Prod.mk.inj (heq₁.trans heq₂.symm)
  obtain ⟨hsent, hresult⟩ := Prod.mk.inj hrest
  exact ⟨closed₁, report₁, closed₂, report₂, hrun₁, hrun₂, hstore, hsent, hresult⟩

/-- A directive without its newline, in two pieces that are read one byte at a time, and in one read. -/
theorem handle_eq_of_delivers_directive :
    let store : Store := { log := ((Ring.empty 1 : Log).insert [97, 98, 10]).1 }
    let directive := (Directive.encode ⟨0, 1⟩).dropLast
    let first : Session := { settings := ⟨0, 64, 0, 0⟩ }
    let second : Session := { settings := ⟨32, 64, 0, 0⟩ }
    let script₁ : List Event :=
      [.arrival (.bytes (directive.take 7)), .arrival (.fault ⟨.interrupted, none⟩),
        .arrival (.bytes (directive.drop 7)), .arrival (.bytes [])]
    let script₂ : List Event := [.arrival (.bytes directive)]
    first.settings.commandLimit = second.settings.commandLimit ∧ first.settings.chunk < 2 ^ 63 ∧
      second.settings.chunk < 2 ^ 63 ∧ Delivers script₁ directive ∧ Delivers script₂ directive ∧
      newline ∉ directive.dropLast ∧ ∃ closed₁ report₁ closed₂ report₂,
        first.handle Outlet.accepting.sink .free store [] script₁ = .ok (closed₁, report₁) ∧
        second.handle Outlet.accepting.sink .free store [] script₂ = .ok (closed₂, report₂) ∧
        report₁.sink.accepted = report₂.sink.accepted ∧ report₂.sink.accepted = [98, 10] := by
  intro store directive first second script₁ script₂
  have hlimit : first.settings.commandLimit = second.settings.commandLimit := rfl
  have hfirst : first.settings.chunk < 2 ^ 63 := by decide
  have hsecond : second.settings.chunk < 2 ^ 63 := by decide
  have h₁ : Delivers script₁ directive := by
    have hsplit : directive = directive.take 7 ++ (directive.drop 7 ++ []) := by decide
    rw [hsplit]
    exact .piece (by decide) (.interrupted rfl (.piece (by decide) (.closed [])))
  have h₂ : Delivers script₂ directive := by
    rw [← List.append_nil directive]
    exact .piece (by decide) .atEnd
  have hline : newline ∉ directive.dropLast := by decide
  refine ⟨hlimit, hfirst, hsecond, h₁, h₂, hline, ?_⟩
  obtain ⟨closed₁, report₁, closed₂, report₂, hrun₁, hrun₂, -, hsent, -⟩ :=
    handle_eq_of_delivers hlimit hfirst hsecond .free store h₁ h₂ hline
  refine ⟨closed₁, report₁, closed₂, report₂, hrun₁, hrun₂, hsent, ?_⟩
  obtain ⟨rfl, rfl⟩ := Prod.mk.inj (Except.ok.inj hrun₂)
  decide

end Session

end LineRing
