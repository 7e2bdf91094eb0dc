/-
A peer that closes ends a directive just as a newline does. Line ends after a command make no difference to what is read
of it as a directive (`Directive.read?_append`). Main statement: a session that is sent a command that begins as a
directive does, and then the end of the stream, does what it does when the command comes with a newline, however these
bytes are cut into reads (`closed_directive_eq_line`).
-/
import LineRing.Proofs.Directive.Grammar
import LineRing.Proofs.Session.Seek

namespace LineRing

namespace Directive

/-! ## Line ends after a command -/

/-- Whether bytes are line ends only, carriage returns or newlines. -/
def IsLineEnds (ends : Bytes) : Prop := ∀ b ∈ ends, b = 13 ∨ b = newline

variable {ends : Bytes}

theorem IsLineEnds.exists_encode (h : IsLineEnds ends) :
    ∃ run, ends = Utf8.encode run ∧ ∀ c ∈ run, isLineEnd c = true := by
  induction ends with
  | nil => exact ⟨[], rfl, List.forall_mem_nil _⟩
  | cons b rest ih =>
    obtain ⟨hb, hrest⟩ := List.forall_mem_cons.1 h
    obtain ⟨run, rfl, hrun⟩ := ih hrest
    rcases hb with rfl | rfl
    · exact ⟨'\r' :: run, rfl, List.forall_mem_cons.2 ⟨by decide, hrun⟩⟩
    · exact ⟨'\n' :: run, rfl, List.forall_mem_cons.2 ⟨by decide, hrun⟩⟩

/-- A body that is cut off within a character is no text, and is none with line ends either. -/
theorem ofBody_append (body : Bytes) (h : IsLineEnds ends) : ofBody (body ++ ends) = ofBody body := by
  obtain ⟨run, rfl, hrun⟩ := h.exists_encode
  unfold ofBody
  rw [Utf8.decode?_append_encode]
  cases Utf8.decode? body with
  | none => rfl
  | some text =>
    show ofText (text ++ run) = ofText text
    unfold ofText
    rw [dropEndWhile_append text hrun]

theorem marker_prefix_append_iff {command : Bytes} (h : IsLineEnds ends) :
    marker <+: command ++ ends ↔ marker <+: command := by
  constructor
  · intro hmarker
    rcases List.prefix_or_prefix_of_prefix hmarker (List.prefix_append command ends) with hcommand | ⟨left, hleft⟩
    · exact hcommand
    · rw [← hleft, List.prefix_append_right_inj] at hmarker
      cases left with
      | nil => exact ⟨[], by rw [← hleft, List.append_nil, List.append_nil]⟩
      | cons b rest =>
        -- a byte of the marker would be a line end
        have hmem : b ∈ marker := by rw [← hleft]; simp
        have hno : 13 ∉ marker ∧ newline ∉ marker := by decide
        rcases h b (hmarker.subset List.mem_cons_self) with rfl | rfl
        · exact absurd hmem hno.1
        · exact absurd hmem hno.2
  · exact fun hmarker => hmarker.trans (List.prefix_append command ends)

/-- Line ends after a command make no difference to the directive, or the fault, that is read of it. -/
theorem read?_append (command : Bytes) (h : IsLineEnds ends) : read? (command ++ ends) = read? command := by
  by_cases hmarker : marker <+: command
  · obtain ⟨body, rfl⟩ := hmarker
    rw [List.append_assoc, read?_marker_append, read?_marker_append, ofBody_append body h]
  · rw [read?_eq_none_iff.2 hmarker, read?_eq_none_iff.2 (mt (marker_prefix_append_iff h).1 hmarker)]

end Directive

namespace Session

/-! ## What is decided -/

/-- Where a command begins as a directive does, it is decided about alike with line ends and cut off without. -/
theorem atEnd_eq_ofCommand {draft : Draft} {ends : Bytes} (hmarker : Directive.marker <+: draft.bytes)
    (h : Directive.IsLineEnds ends) : Decision.atEnd draft = .ofCommand (draft.bytes ++ ends) := by
  obtain ⟨body, hbody⟩ := hmarker
  unfold Decision.atEnd Decision.ofCommand Request.ofCommand
  rw [Directive.read?_append _ h, ← hbody, Directive.read?_marker_append]
  cases Directive.ofBody body <;> rfl

/-- What is left of a script in which the peer has closed. -/
inductive Closing : List Event → Prop
  | done : Closing []
  | closed (rest : List Event) : Closing (.arrival (.bytes []) :: rest)

theorem Closing.cutScript {closing : List Event} (h : Closing closing) (buffer : Nat) :
    Closing (cutScript buffer closing) := by
  cases h with
  | done => exact .done
  | closed rest => exact .closed _

theorem Closing.listen_eq {closing : List Event} (h : Closing closing) (draft : Draft) :
    ∃ used, listen draft closing = (used, .atEnd draft) ∧ foreign used = [] := by
  cases h with
  | done => exact ⟨[], rfl, rfl⟩
  | closed rest => exact ⟨[.arrival (.bytes [])], rfl, rfl⟩

/-- A peer that closes within a command has its session decide about what was sent. -/
theorem listen_sending_closing {limit : Nat} {sent : List Bytes} {closing : List Event}
    (hne : ∀ piece ∈ sent, piece ≠ []) (hline : newline ∉ sent.flatten) (hle : sent.flatten.length ≤ limit)
    (h : Closing closing) :
    ∃ used, listen ⟨[], some limit⟩ (sending sent ++ closing) = (used, .atEnd ⟨sent.flatten, some limit⟩) ∧
      foreign used = [] := by
  obtain ⟨used, hlisten, hforeign⟩ := h.listen_eq ⟨sent.flatten, some limit⟩
  have hbrought := brought_sending sent
  refine ⟨sending sent ++ used, ?_, ?_⟩
  · rw [listen_append closing _ (isPassing_sending hne hline) (by rw [List.nil_append, hbrought]; exact hle),
      List.nil_append, hbrought, hlisten]
  · rw [foreign, List.filterMap_append]
    exact List.append_eq_nil_iff.2 ⟨foreign_sending sent, hforeign⟩

/-- A session whose peer closes within a command settles what was sent, however it was cut into pieces and reads. -/
theorem handle_closing {σ : Type} {session : Session} (hchunk : session.settings.chunk < 2 ^ 63) (sink : Sink σ)
    (lock others : Lock) (store : Store) (s : σ) {sent : List Bytes} {closing : List Event}
    (hne : ∀ piece ∈ sent, piece ≠ []) (hline : newline ∉ sent.flatten)
    (hlimit : sent.flatten.length ≤ session.settings.commandLimit) (h : Closing closing) :
    ∃ report, session.handle sink lock store s (sending sent ++ closing) others =
        .ok ({ session with phase := .closed }, report) ∧
      (report.store, report.sink, report.result) = settle sink session.settings.chunk lock store s
        (.atEnd ⟨sent.flatten, some session.settings.commandLimit⟩) := by
  have hflat := Log.flatten_flatMap_pieces session.settings.buffer sent
  obtain ⟨used, hlisten, hforeign⟩ := listen_sending_closing (ne_nil_of_mem_cut session.settings.buffer)
    (hflat.symm ▸ hline) (hflat.symm ▸ hlimit) (h.cutScript session.settings.buffer)
  rw [hflat, ← cutScript_sending_append _ hne] at hlisten
  exact handle_of_listen hchunk sink lock others store s hlisten hforeign

/-! ## The main statement -/

/-- The end of the stream ends a directive just as a newline does. Line ends after a command make no difference to the
directive, or to the fault, that is read of it. So a session that is sent a command that begins as a directive does,
and then has its peer close, leaves the store, the sink (be it one that records every call) and the result that it
leaves when the command comes with its newline, whatever comes after that, and however the bytes are cut. -/
theorem closed_directive_eq_line :
    (∀ command ends, Directive.IsLineEnds ends → Directive.read? (command ++ ends) = Directive.read? command) ∧
    ∀ {σ : Type} (session : Session) (sink : Sink σ) (lock : Lock) (store : Store) (s : σ) (command : Bytes)
      (sent sentLine : List Bytes) (closing rest : List Event), session.settings.chunk < 2 ^ 63 →
      Directive.marker <+: command → newline ∉ command → command.length + 1 ≤ session.settings.commandLimit →
      (∀ piece ∈ sent, piece ≠ []) → sent.flatten = command → Closing closing →
      (∀ piece ∈ sentLine, piece ≠ []) → sentLine.flatten = command ++ [newline] →
      ∃ closed report line, session.handle sink lock store s (sending sent ++ closing) = .ok (closed, report) ∧
        session.handle sink lock store s (sending sentLine ++ rest) = .ok (closed, line) ∧
        report.store = line.store ∧ report.sink = line.sink ∧ report.result = line.result := by
  refine ⟨fun command _ h => Directive.read?_append command h, ?_⟩
  intro σ session sink lock store s command sent sentLine closing rest hchunk hmarker hline hlimit hsent hcommand
    hclosing hsentLine hcommandLine
  subst hcommand
  obtain ⟨report, hrun, hreport⟩ :=
    handle_closing hchunk sink lock lock store s hsent hline (Nat.le_of_succ_le hlimit) hclosing
  obtain ⟨line, hrunLine, hreportLine⟩ :=
    handle_line hchunk sink lock lock store s hsentLine hcommandLine hline (by rwa [List.length_append]) rest
  have hnewline : Directive.IsLineEnds [newline] := fun b hb => Or.inr (List.mem_singleton.1 hb)
  rw [atEnd_eq_ofCommand hmarker hnewline] at hreport
  obtain ⟨hstore, hrest⟩ := Prod.mk.inj (hreport.trans hreportLine.symm)
  obtain ⟨hsink, hresult⟩ := Prod.mk.inj hrest
  exact ⟨_, report, line, hrun, hrunLine, hstore, hsink, hresult⟩

/-- A directive with a bad second number, cut within a character of it, against the same line in one piece. -/
theorem closed_directive_eq_line_cut_character :
    let session : Session := { settings := ⟨4, 64, 0, 0⟩ }
    let store : Store := { log := Ring.empty 2 }
    let command := Directive.marker ++ [48, 44, 195]
    session.settings.chunk < 2 ^ 63 ∧ ∃ closed report line,
      session.handle Outlet.accepting.sink .free store [] (sending [Directive.marker ++ [48], [44, 195]]) =
        .ok (closed, report) ∧
      session.handle Outlet.accepting.sink .free store [] (sending [command ++ [newline]]) = .ok (closed, line) ∧
      report.result = line.result ∧
      report.result = .error (.protocol "seek directive is not valid UTF-8") := by
  intro session store command
  have hchunk : session.settings.chunk < 2 ^ 63 := by decide
  obtain ⟨closed, report, line, hrun, hrunLine, -, -, hresult⟩ :=
    closed_directive_eq_line.2 session Outlet.accepting.sink .free store [] command
      [Directive.marker ++ [48], [44, 195]] [command ++ [newline]] [] [] hchunk ⟨[48, 44, 195], rfl⟩ (by decide)
      (by decide) (by decide) (by decide) .done (by decide) (by decide)
  rw [List.append_nil] at hrun hrunLine
  refine ⟨hchunk, closed, report, line, hrun, hrunLine, hresult, ?_⟩
  obtain ⟨rfl, rfl⟩ := Prod.mk.inj (Except.ok.inj hrun)
  decide +kernel

end Session

end LineRing
