/-
What can be in the log. In runs in which stamps are all that is committed directly, the log is made of lines: each entry
ends with a newline, whoever committed it and however the actions of the clients are mixed. So no entry is empty, and
every command that is retained has a first byte that can be sought. The directives that sessions receive never get in.

The invariant of a host, `Host.Lined`, has the soundness of its sessions and the limits of its handles besides, since
these say what the next commit can be.
-/
import LineRing.Stamp
import LineRing.Proofs.Host.Order
import LineRing.Proofs.Log.Addresses
import LineRing.Proofs.Session.Commit

namespace LineRing

theorem Stamp.getLast?_entry (t : Instant) (zone : Int) : (Stamp.entry t zone).getLast? = some newline := by
  have hend : Utf8.encode ['\n'] = [newline] := by decide
  unfold Stamp.entry Stamp.line
  rw [Utf8.encode_append, hend, List.getLast?_concat]

namespace Host

/-! ## One move -/

/-- Nothing is committed directly by the action but a stamp. -/
def Action.StampsOnly (action : Action) : Prop := ∀ e, action = .commit e → ∃ t zone, e = Stamp.entry t zone

/-- What holds of a host whose log is lines, and which bounds what is written to it by `limit`. -/
structure Lined (limit : Option Nat) (host : Host) : Prop where
  wf : host.store.log.WF
  lines : ∀ e ∈ host.store.log.toList, e.getLast? = some newline
  sound : host.Sound
  draftLimit_eq : host.store.draftLimit = limit
  limit_eq : ∀ id h, host.handles id = some h → h.draft.limit = limit

namespace Move

variable {m : Move}

theorem mem_of_evicted? (hwf : m.before.store.log.WF) {e : Entry} (h : m.evicted? = some e) :
    e ∈ m.before.store.log.toList := by
  obtain ⟨new, -, hnew⟩ := Option.bind_eq_some_iff.1 h
  rw [Ring.insert_snd hwf] at hnew
  split at hnew
  · exact List.mem_of_head? hnew
  · cases hnew

theorem getLast?_of_commit? (hs : m.before.Sound) (hd : m.action.StampsOnly) {e : Entry} (h : m.commit? = some e) :
    e.getLast? = some newline := by
  obtain ⟨-, ho⟩ := m.commit?_eq_some h
  by_cases hc : m.action.client = .direct
  · rcases m.offer?_cases ho with ha | ⟨id, -, hclient, -⟩ | ⟨id, -, hclient, -⟩
    · obtain ⟨t, zone, rfl⟩ := hd e ha
      exact Stamp.getLast?_entry t zone
    · rw [hc] at hclient; cases hclient
    · rw [hc] at hclient; cases hclient
  · exact getLast?_of_offer? hs ho hc

/-- A session commits what it has decided to keep. -/
theorem session_of_commit? (hs : m.before.Sound) {id : ClientId} (hc : m.action.client = .session id) {e : Entry}
    (h : m.commit? = some e) :
    ∃ settings, m.before.sessions id = some ⟨settings, .decided (.keep e)⟩ ∧ e.length ≤ settings.commandLimit ∧
      ¬ Directive.marker <+: e := by
  obtain ⟨-, ho⟩ := m.commit?_eq_some h
  rcases m.offer?_cases ho with ha | ⟨other, -, hclient, -⟩ | ⟨other, settings, hclient, -, hsession⟩
  · rw [ha] at hc; cases hc
  · rw [hc] at hclient; cases hclient
  · obtain rfl : id = other := by simpa using hc.symm.trans hclient
    obtain ⟨-, hread, hle⟩ := hs id _ hsession
    exact ⟨settings, hsession, hle, Directive.read?_eq_none_iff.1 hread⟩

theorem length_le_of_commit? {limit : Option Nat} (hl : ∀ id h, m.before.handles id = some h → h.draft.limit = limit)
    {id : ClientId} (hc : m.action.client = .handle id) {e : Entry} (h : m.commit? = some e) :
    ∀ n ∈ limit, e.length ≤ n := by
  obtain ⟨-, ho⟩ := m.commit?_eq_some h
  rcases m.offer?_cases ho with ha | ⟨other, h₀, -, hh, he⟩ | ⟨other, settings, hclient, -⟩
  · rw [ha] at hc; cases hc
  · obtain ⟨-, -, hle⟩ := Handle.ended?_eq_some he
    rw [hl other h₀ hh] at hle
    exact hle
  · rw [hc] at hclient; cases hclient

/-! ## What a move keeps -/

theorem draftLimit_after (m : Move) : m.after.store.draftLimit = m.before.store.draftLimit := by
  rw [m.store_after]
  split
  · rfl
  · cases m.commit? <;> rfl

/-- A handle is opened with the limit of the store, and nothing that is done with it changes that. -/
theorem limit_after (hl : ∀ id h, m.before.handles id = some h → h.draft.limit = m.before.store.draftLimit)
    {id : ClientId} {h : Handle} (hh : m.after.handles id = some h) : h.draft.limit = m.before.store.draftLimit := by
  by_cases hc : m.action.client = .handle id
  · obtain ⟨host, lock, action⟩ := m
    cases action with
    | openHandle other =>
      obtain rfl : other = id := by simpa [Action.client] using hc
      obtain rfl : host.store.openHandle = h := by simpa [after, step, setAt] using hh
      rfl
    | closeHandle other =>
      obtain rfl : other = id := by simpa [Action.client] using hc
      simp [after, step, setAt] at hh
    | write other | writeAll other | flush other | read other | readAll other | seek other | seekTo other =>
      obtain rfl : other = id := by simpa [Action.client] using hc
      simp only [after, step, readHandle, withHandle_handles_self] at hh
      obtain ⟨h₀, hh₀, rfl⟩ := Option.map_eq_some_iff.1 hh
      simpa using hl other h₀ hh₀
    | _ => cases hc
  · rw [m.handles_after_of_ne hc] at hh
    exact hl id h hh

end Move

theorem lined_after {limit : Option Nat} {m : Move} (h : m.before.Lined limit) (hd : m.action.StampsOnly) :
    m.after.Lined limit := by
  obtain ⟨hwf, hlines, hsound, hlimit, hhandles⟩ := h
  subst hlimit
  have hstore := m.store_after
  refine ⟨?_, ?_, sound_after hsound, m.draftLimit_after, fun id h hh => Move.limit_after hhandles hh⟩
  · rw [hstore]
    split
    · exact Ring.clear_wf hwf
    · cases m.commit? with
      | none => exact hwf
      | some e => exact Ring.insert_wf hwf e
  · intro e he
    rw [hstore] at he
    split at he
    · exact absurd he (by simp [Store.clear])
    · cases hcommit : m.commit? with
      | none =>
        rw [hcommit] at he
        exact hlines e he
      | some new =>
        rw [hcommit] at he
        change e ∈ (m.before.store.log.insert new).1.toList at he
        rw [Ring.toList_insert_eq_drop hwf] at he
        rcases List.mem_append.1 (List.mem_of_mem_drop he) with hold | hnew
        · exact hlines e hold
        · rw [List.mem_singleton.1 hnew]
          exact Move.getLast?_of_commit? hsound hd hcommit

/-! ## Runs -/

theorem lined_new {capacity : Nat} {store : Store} (h : Ring.create capacity = .ok store.log) :
    Lined store.draftLimit { store := store } := by
  obtain ⟨hwf, hempty⟩ := Ring.create_wf h
  constructor
  · exact hwf
  · intro e he
    rw [show store.log = _ from hempty, Ring.toList_empty] at he
    cases he
  · rintro id live h; cases h
  · rfl
  · rintro id h hh; cases hh

theorem lined_run {capacity : Nat} {store : Store} (h : Ring.create capacity = .ok store.log)
    {steps : List (Lock × Action)} (hd : ∀ x ∈ steps, x.2.StampsOnly) :
    (run { store := store } steps).1.Lined store.draftLimit :=
  @run_induction_of Action.StampsOnly (fun _ host => host.Lined store.draftLimit) (fun _ _ hd h => lined_after h hd)
    steps [] _ hd (lined_new h)

/-- Each move of a run finds a log of lines. -/
theorem lined_before {capacity : Nat} {store : Store} (h : Ring.create capacity = .ok store.log)
    {steps : List (Lock × Action)} (hd : ∀ x ∈ steps, x.2.StampsOnly) {m : Move}
    (hm : m ∈ moves { store := store } steps) : m.before.Lined store.draftLimit := by
  obtain ⟨past, rest, hpast⟩ := List.append_of_mem hm
  obtain ⟨a, b, rfl, -, hbefore, -⟩ := exists_of_moves_eq steps hpast
  rw [hbefore]
  exact lined_run h (List.forall_mem_append.1 hd).1

end Host

/-! ## Logs of lines -/

namespace Log

theorem count_le_size {log : Log} (hwf : log.WF) (h : ∀ e ∈ log.toList, e ≠ []) : log.count ≤ log.size := by
  rw [← hwf.length_toList]
  exact length_le_totalLength h

/-- Where no entry is empty, each command has a first byte. -/
theorem exists_offsetOf_first_byte {log : Log} (hwf : log.WF) (h : ∀ e ∈ log.toList, e ≠ []) {i : Nat}
    (hi : i < log.count) : ∃ offset, log.offsetOf ⟨i, 0⟩ = .ok offset := by
  obtain ⟨e, he⟩ := get?_eq_some_of_lt hwf hi
  have hmem : e ∈ log.toList := List.mem_of_getElem? ((hwf.getElem?_toList i).trans he)
  refine ⟨_, (offsetOf_eq_ok_iff_size hwf).2 ⟨hi, ?_, rfl⟩⟩
  rw [sizeAt_eq he]
  exact List.length_pos_iff.2 (h e hmem)

end Log

/-! ## The main statement -/

namespace Host

/-- The log holds lines only. Take any run from a new store in which stamps are all that is committed directly. Every
entry that is retained, and every entry that was evicted, ends with a newline. What a session commits is the command
that it has decided to keep; this is within the limit of its own settings and does not begin with the marker of
directives, well-formed or not. What a handle commits is within the limit of the store. So there are no more commands
than bytes, and each command has a first byte with an offset. And a session that was given something that begins with
the marker leaves the store as it is. -/
theorem log_holds_lines {capacity : Nat} {store : Store} (h : Ring.create capacity = .ok store.log)
    {steps : List (Lock × Action)} (hd : ∀ x ∈ steps, x.2.StampsOnly) :
    let past := moves { store := store } steps
    let log := (run { store := store } steps).1.store.log
    (∀ e ∈ log.toList, e ≠ [] ∧ e.getLast? = some newline) ∧
    (∀ m ∈ past, ∀ e, m.evicted? = some e → e ≠ [] ∧ e.getLast? = some newline) ∧
    (∀ m ∈ past, ∀ id, m.action.client = .session id → ∀ e, m.commit? = some e →
      ∃ settings, m.before.sessions id = some ⟨settings, .decided (.keep e)⟩ ∧ e.length ≤ settings.commandLimit ∧
        ¬ Directive.marker <+: e) ∧
    (∀ m ∈ past, ∀ id, m.action.client = .handle id → ∀ e, m.commit? = some e →
      ∀ limit ∈ store.draftLimit, e.length ≤ limit) ∧
    log.count ≤ log.size ∧
    (∀ i < log.count, ∃ offset, log.offsetOf ⟨i, 0⟩ = .ok offset) ∧
    (∀ before m after, past = before ++ m :: after → ∀ id, m.action.client = .session id →
      Directive.marker <+: received (.session id) before → m.after.store = m.before.store) := by
  intro past log
  have hend := lined_run h hd
  have hne : ∀ e : Entry, e.getLast? = some newline → e ≠ [] := by
    rintro e he rfl
    cases he
  refine ⟨?_, ?_, ?_, ?_, ?_, ?_, ?_⟩
  · intro e he
    exact ⟨hne e (hend.lines e he), hend.lines e he⟩
  · intro m hm e he
    have hm := lined_before h hd hm
    have hlast := hm.lines e (Move.mem_of_evicted? hm.wf he)
    exact ⟨hne e hlast, hlast⟩
  · intro m hm id hc e he
    exact Move.session_of_commit? (lined_before h hd hm).sound hc he
  · intro m hm id hc e he
    exact Move.length_le_of_commit? (lined_before h hd hm).limit_eq hc he
  · exact Log.count_le_size hend.wf fun e he => hne e (hend.lines e he)
  · intro i hi
    exact Log.exists_offsetOf_first_byte hend.wf (fun e he => hne e (hend.lines e he)) hi
  · intro before m after hpast id hc hmarker
    have hm : m ∈ past := by rw [hpast]; exact List.mem_append_right _ (List.mem_cons_self ..)
    have hclears : m.action.clears = false := Action.clears_eq_false (by rw [hc]; simp)
    rw [m.store_after, hclears]
    -- what the session commits is what it was given, and that is a directive
    cases hcommit : m.commit? with
    | none => rfl
    | some e =>
      obtain ⟨a, b, -, hbefore, hrun, -⟩ := exists_of_moves_eq steps hpast
      obtain ⟨settings, hsession, -, hno⟩ := Move.session_of_commit? (lined_before h hd hm).sound hc hcommit
      have htracks := tracks_run store a (.session id) e
      rw [← hrun, ← hbefore] at htracks
      rw [← htracks (by simp [pending?, hsession, Session.Stage.pending?])] at hmarker
      exact absurd hmarker hno

/-- A session, a handle that is refused the lock once, a stamp for which the entry of the session is evicted, and a
session that is sent a directive with no numbers. -/
theorem log_holds_lines_with_stamp :
    let store : Store := { log := Ring.empty 2, patience := some 1000, draftLimit := some 2 }
    let stamp : Entry := Stamp.entry ⟨0, 0⟩ 3600
    let steps : List (Lock × Action) :=
      [(.free, .openHandle 0), (.free, .write 0 [97]), (.free, .startSession 0 ⟨4, 64, 0, 0⟩),
        (.free, .hear 0 (.bytes [98, 10])), (.held, .write 0 [10]), (.free, .settle 0 .accepting),
        (.free, .write 0 [10]), (.held, .commit stamp), (.free, .commit stamp),
        (.free, .startSession 1 ⟨4, 64, 0, 0⟩), (.free, .hear 1 (.bytes (Directive.marker ++ [10]))),
        (.free, .settle 1 .accepting)]
    let past := moves { store := store } steps
    let log := (run { store := store } steps).1.store.log
    Ring.create 2 = .ok store.log ∧ (∀ x ∈ steps, x.2.StampsOnly) ∧ log.toList = [[97, 10], stamp] ∧
      past.filterMap Move.evicted? = [[98, 10]] ∧ (∀ e ∈ log.toList, e ≠ [] ∧ e.getLast? = some newline) ∧
      log.count ≤ log.size ∧ ∃ offset, log.offsetOf ⟨1, 0⟩ = .ok offset := by
  intro store stamp steps past log
  have hnew : Ring.create 2 = .ok store.log := rfl
  have hd : ∀ x ∈ steps, x.2.StampsOnly := by
    rintro ⟨lock, action⟩ hx e rfl
    have hstamp : lock = .held ∧ e = stamp ∨ lock = .free ∧ e = stamp := by simpa [steps] using hx
    rcases hstamp with ⟨-, rfl⟩ | ⟨-, rfl⟩
    · exact ⟨_, _, rfl⟩
    · exact ⟨_, _, rfl⟩
  obtain ⟨hretained, -, -, -, hcount, hfirst, -⟩ := log_holds_lines hnew hd
  exact ⟨hnew, hd, by decide, by decide, hretained, hcount, hfirst 1 (by decide)⟩

end Host

end LineRing
