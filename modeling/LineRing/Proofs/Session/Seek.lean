/-
A line reaches a session however it is cut into reads. Main statements: a session that is sent a line in pieces, none of
them empty, settles what the line asks for on the store that it finds (`handle_line`), and so it does a directive
(`handle_directive`).
-/
import LineRing.Directive.Lemmas
import LineRing.Proofs.Session.Commit

namespace LineRing

namespace Session

/-! ## Pieces -/

/-- A script in which the peer sends these pieces, one after the other. -/
def sending (sent : List Bytes) : List Event := sent.map fun piece => .arrival (.bytes piece)

theorem brought_sending (sent : List Bytes) : brought (sending sent) = sent.flatten := by
  unfold brought sending
  rw [List.map_map]
  exact congrArg List.flatten (List.map_id sent)

theorem foreign_sending (sent : List Bytes) : foreign (sending sent) = [] := by
  refine List.filterMap_eq_nil_iff.2 fun ev hev => ?_
  obtain ⟨piece, -, rfl⟩ := List.mem_map.1 hev
  rfl

theorem cut_bytes (buffer : Nat) {piece : Bytes} (hne : piece ≠ []) :
    Event.cut buffer (.arrival (.bytes piece)) = sending (pieces buffer piece) := by
  cases piece with
  | nil => exact absurd rfl hne
  | cons b tail => rfl

theorem cutScript_sending (buffer : Nat) (sent : List Bytes) (hne : ∀ piece ∈ sent, piece ≠ []) :
    cutScript buffer (sending sent) = sending (sent.flatMap (pieces buffer)) := by
  induction sent with
  | nil => rfl
  | cons piece rest ih =>
    obtain ⟨hpiece, hrest⟩ := List.forall_mem_cons.1 hne
    calc cutScript buffer (sending (piece :: rest))
        = Event.cut buffer (.arrival (.bytes piece)) ++ cutScript buffer (sending rest) := rfl
      _ = sending (pieces buffer piece) ++ sending (rest.flatMap (pieces buffer)) := by
        rw [cut_bytes buffer hpiece, ih hrest]
      _ = sending ((piece :: rest).flatMap (pieces buffer)) := List.map_append.symm

theorem cutScript_sending_append (buffer : Nat) {sent : List Bytes} (hne : ∀ piece ∈ sent, piece ≠ [])
    (rest : List Event) :
    cutScript buffer (sending sent ++ rest) = sending (sent.flatMap (pieces buffer)) ++ cutScript buffer rest := by
  rw [← cutScript_sending buffer sent hne]
  exact List.flatMap_append

theorem ne_nil_of_mem_cut (buffer : Nat) {sent : List Bytes} :
    ∀ piece ∈ sent.flatMap (pieces buffer), piece ≠ [] := by
  intro piece hpiece
  obtain ⟨whole, -, hp⟩ := List.mem_flatMap.1 hpiece
  exact List.length_pos_iff.1 (length_of_mem_pieces hp).1

/-! ## Lines -/

/-- A piece that lies within a line has no newline, and decides nothing. -/
theorem isPassing_sending {sent : List Bytes} (hne : ∀ piece ∈ sent, piece ≠ []) (hline : newline ∉ sent.flatten) :
    ∀ ev ∈ sending sent, ev.isPassing = true := by
  intro ev hev
  obtain ⟨piece, hpiece, rfl⟩ := List.mem_map.1 hev
  have hend : piece.getLast? ≠ some newline := fun hlast =>
    hline (List.mem_flatten.2 ⟨piece, hpiece, List.mem_of_getLast? hlast⟩)
  simp [Event.isPassing, hne piece hpiece, hend]

/-- A line that is cut into pieces ends with the last of them. -/
theorem exists_last_piece {sent : List Bytes} {line : Bytes} (hne : ∀ piece ∈ sent, piece ≠ [])
    (hsent : sent.flatten = line ++ [newline]) :
    ∃ init front, sent = init ++ [front ++ [newline]] ∧ line = init.flatten ++ front := by
  rcases List.eq_nil_or_concat sent with rfl | ⟨init, last, rfl⟩
  · cases line <;> cases hsent
  · rw [List.concat_eq_append] at hsent hne ⊢
    rw [List.flatten_append, List.flatten_singleton] at hsent
    rcases List.eq_nil_or_concat last with rfl | ⟨front, b, rfl⟩
    · exact absurd rfl (hne [] (List.mem_append_right init (List.mem_singleton_self _)))
    · rw [List.concat_eq_append, ← List.append_assoc] at hsent
      obtain ⟨hline, hb⟩ := List.append_inj' hsent rfl
      obtain rfl : b = newline := List.singleton_inj.1 hb
      exact ⟨init, front, by rw [List.concat_eq_append], hline.symm⟩

/-- A peer that sends a line has its session decide about it, whatever comes after the line. -/
theorem listen_sending_line {limit : Nat} {sent : List Bytes} {line : Bytes} (hne : ∀ piece ∈ sent, piece ≠ [])
    (hsent : sent.flatten = line ++ [newline]) (hline : newline ∉ line) (hle : (line ++ [newline]).length ≤ limit)
    (rest : List Event) :
    listen ⟨[], some limit⟩ (sending sent ++ rest) = (sending sent, .ofCommand (line ++ [newline])) := by
  obtain ⟨init, front, rfl, rfl⟩ := exists_last_piece hne hsent
  have hpass : ∀ ev ∈ sending init, ev.isPassing = true :=
    isPassing_sending (List.forall_mem_append.1 hne).1 fun hmem => hline (List.mem_append_left front hmem)
  have hbrought : brought (sending init) ++ (front ++ [newline]) = init.flatten ++ front ++ [newline] := by
    rw [brought_sending, List.append_assoc]
  have hsending : sending (init ++ [front ++ [newline]]) = sending init ++ [.arrival (.bytes (front ++ [newline]))] :=
    List.map_append
  rw [hsending, List.append_assoc, List.singleton_append,
    listen_to_newline hpass List.getLast?_concat (hbrought ▸ hle), hbrought]

/-! ## The main statements -/

variable {σ : Type} {session : Session}

/-- A session that listens with no commit of others in between settles what it decides on the store that it finds. -/
theorem handle_of_listen (hchunk : session.settings.chunk < 2 ^ 63) (sink : Sink σ) (lock others : Lock) (store : Store)
    (s : σ) {script used : List Event} {decision : Decision}
    (hlisten : listen ⟨[], some session.settings.commandLimit⟩ (cutScript session.settings.buffer script) =
      (used, decision)) (hforeign : foreign used = []) :
    ∃ report, session.handle sink lock store s script others = .ok ({ session with phase := .closed }, report) ∧
      (report.store, report.sink, report.result) = settle sink session.settings.chunk lock store s decision := by
  refine ⟨_, handle_eq hchunk sink lock others store s script, ?_⟩
  have hreport := (converse_eq_settle sink session.settings.chunk lock others s
    (cutScript session.settings.buffer script) store ⟨[], some session.settings.commandLimit⟩).1
  rw [hlisten, hforeign] at hreport
  exact hreport

/-- A session that is sent a line settles what the line asks for, however it is cut into pieces and these into reads. -/
theorem handle_line (hchunk : session.settings.chunk < 2 ^ 63) (sink : Sink σ) (lock others : Lock) (store : Store)
    (s : σ) {sent : List Bytes} {line : Bytes} (hne : ∀ piece ∈ sent, piece ≠ [])
    (hsent : sent.flatten = line ++ [newline]) (hline : newline ∉ line)
    (hlimit : (line ++ [newline]).length ≤ session.settings.commandLimit) (rest : List Event) :
    ∃ report, session.handle sink lock store s (sending sent ++ rest) others =
        .ok ({ session with phase := .closed }, report) ∧
      (report.store, report.sink, report.result) =
        settle sink session.settings.chunk lock store s (.ofCommand (line ++ [newline])) := by
  have hflat := (Log.flatten_flatMap_pieces session.settings.buffer sent).trans hsent
  have hlisten := listen_sending_line (ne_nil_of_mem_cut _) hflat hline hlimit
    (cutScript session.settings.buffer rest)
  rw [← cutScript_sending_append _ hne] at hlisten
  exact handle_of_listen hchunk sink lock others store s hlisten (foreign_sending _)

/-- A session that is sent a directive follows it, however the directive is cut into pieces and these into reads. -/
theorem handle_directive {σ : Type} (session : Session) (hchunk : session.settings.chunk < 2 ^ 63) (sink : Sink σ)
    (s : σ) (lock others : Lock) (store : Store) {d : Directive} {sent : List Bytes} (hne : ∀ piece ∈ sent, piece ≠ [])
    (hsent : sent.flatten = d.encode) (hlimit : d.encode.length ≤ session.settings.commandLimit) :
    ∃ closed report, session.handle sink lock store s (sending sent) others = .ok (closed, report) ∧
      (report.store, report.sink, report.result) = settle sink session.settings.chunk lock store s (.seek d) := by
  obtain ⟨line, hd, hline⟩ := d.encode_eq_line
  obtain ⟨report, hrun, hreport⟩ :=
    handle_line hchunk sink lock others store s hne (hsent.trans hd) hline (hd ▸ hlimit) []
  rw [List.append_nil] at hrun
  rw [← hd, ofCommand_eq_seek_iff.2 d.read?_encode] at hreport
  exact ⟨_, report, hrun, hreport⟩

end Session

end LineRing
