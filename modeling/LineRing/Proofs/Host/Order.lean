/-
Commits and replies in one order. In any run from a new store, actions of any clients in any order and any waits for
the lock refused, the log is the last of the entries committed since the last clearing, and each of these entries was
given by one client. A session that reports a commit was sent the log as it was right after its own entry was inserted.

The proof carries two facts through a run: the ring is a queue of the entries committed (`queued_run`), and what a
client has of its command is what it was given (`Tracks`).
-/
import LineRing.Proofs.Host.Effect
import LineRing.Proofs.Log.Reply

namespace LineRing

namespace Host

/-! ## The log of a run -/

theorem Move.log_after (m : Move) :
    m.after.store.log = match m.op? with
      | some op => (op.apply (m.before.store.log, [])).1
      | none => m.before.store.log := by
  rw [m.store_after]
  unfold Move.op?
  cases hc : m.action.clears with
  | true => rfl
  | false => cases m.commit? <;> rfl

theorem committed_append (past : List Move) (m : Move) :
    committed (past ++ [m]) = match m.op? with
      | some op => op.extend (committed past)
      | none => committed past := by
  unfold committed Ring.inserted
  rw [filterMap_concat, List.foldl_append]
  cases m.op? <;> rfl

theorem dropped_append (past : List Move) (m : Move) : dropped (past ++ [m]) = m.drops (dropped past) := by
  simp [dropped]

/-- A move evicts what the insertion of the entry that it commits evicts, and forgets that where it clears. -/
theorem Move.drops_eq (m : Move) (gone : List Entry) :
    m.drops gone = match m.op? with
      | some op => (op.apply (m.before.store.log, gone)).2
      | none => gone := by
  unfold Move.drops Move.op? Move.evicted?
  cases hc : m.action.clears with
  | true => rfl
  | false =>
    cases m.commit? with
    | none => exact List.append_nil gone
    | some e => rfl

theorem queued_after {capacity : Nat} {past : List Move} {m : Move} {gone : List Entry}
    (h : Ring.Queued capacity (committed past) (m.before.store.log, gone)) :
    Ring.Queued capacity (committed (past ++ [m])) (m.after.store.log, m.drops gone) := by
  rw [m.log_after, m.drops_eq, committed_append]
  cases m.op? with
  | none => exact h
  | some op =>
    have happ := h.apply op
    cases op with
    | insert e => exact happ
    | clear => exact happ

/-- The ring stays a queue of the entries committed: those evicted come first, then those held. -/
theorem queued_moves {capacity : Nat} {past : List Move} {host : Host}
    (h : Ring.Queued capacity (committed past) (host.store.log, dropped past)) (steps : List (Lock × Action)) :
    Ring.Queued capacity (committed (past ++ host.moves steps))
      ((host.run steps).1.store.log, dropped (past ++ host.moves steps)) := by
  refine run_induction_of (Q := fun _ => True)
    (P := fun past host => Ring.Queued capacity (committed past) (host.store.log, dropped past)) ?_ steps
    (fun _ _ => trivial) h
  intro past m _ hqueued
  rw [dropped_append]
  exact queued_after hqueued

/-- In any run from a new store the ring is a queue of the entries committed. -/
theorem queued_dropped {capacity : Nat} {store : Store} (h : Ring.create capacity = .ok store.log)
    (steps : List (Lock × Action)) :
    Ring.Queued capacity (committed (moves { store := store } steps))
      ((run { store := store } steps).1.store.log, dropped (moves { store := store } steps)) := by
  have hnew : Ring.Queued capacity (committed []) (({ store := store } : Host).store.log, dropped []) :=
    Ring.queued_run h []
  exact queued_moves hnew steps

theorem queued_run {capacity : Nat} {store : Store} (h : Ring.create capacity = .ok store.log)
    (steps : List (Lock × Action)) :
    ∃ evicted, Ring.Queued capacity (committed (moves { store := store } steps))
      ((run { store := store } steps).1.store.log, evicted) :=
  ⟨_, queued_dropped h steps⟩

/-- The log that a move of a run leaves: the last of the entries committed up to it. -/
theorem toList_after {capacity : Nat} {store : Store} (h : Ring.create capacity = .ok store.log)
    {steps : List (Lock × Action)} {past rest : List Move} {m : Move}
    (hm : moves { store := store } steps = past ++ m :: rest) :
    m.before.store.log.WF ∧ m.after.store.log.toList = (committed (past ++ [m])).rtake capacity := by
  obtain ⟨a, b, rfl, rfl, hbefore, -⟩ := exists_of_moves_eq steps hm
  obtain ⟨_, hq⟩ := queued_run h a
  obtain ⟨_, hq'⟩ := queued_run h (a ++ [(m.lock, m.action)])
  refine ⟨by rw [hbefore]; exact hq.wf, ?_⟩
  have htoList := hq'.toList_eq
  rw [run_append, moves_append, ← hbefore] at htoList
  exact htoList

/-- Where nothing is cleared, the entries committed are those of all moves. -/
theorem committed_append_of_keeps (past : List Move) {more : List Move} (h : ∀ m ∈ more, m.action.clears = false) :
    committed (past ++ more) = committed past ++ more.filterMap Move.commit? := by
  induction more using List.reverseRecOn with
  | nil => simp
  | append_singleton more m ih =>
    obtain ⟨hmore, hm⟩ := List.forall_mem_append.1 h
    have hop : m.op? = m.commit?.map .insert := by
      unfold Move.op?
      rw [hm m (List.mem_singleton_self m)]; rfl
    rw [← List.append_assoc, committed_append, hop, ih hmore, filterMap_concat, ← List.append_assoc]
    cases m.commit? with
    | none => exact (List.append_nil _).symm
    | some e => rfl

theorem committed_eq_filterMap {past : List Move} (h : ∀ m ∈ past, m.action.clears = false) :
    committed past = past.filterMap Move.commit? := committed_append_of_keeps [] h

/-- Where nothing is cleared, the entries evicted are those of all moves. -/
theorem dropped_append_of_keeps (past : List Move) {more : List Move} (h : ∀ m ∈ more, m.action.clears = false) :
    dropped (past ++ more) = dropped past ++ more.filterMap Move.evicted? := by
  induction more using List.reverseRecOn with
  | nil => simp
  | append_singleton more m ih =>
    obtain ⟨hmore, hm⟩ := List.forall_mem_append.1 h
    rw [← List.append_assoc, dropped_append, ih hmore, filterMap_concat, ← List.append_assoc]
    unfold Move.drops
    rw [hm m (List.mem_singleton_self m)]; rfl

/-! ## What a client was given -/

/-- A host in which each client has of its command what it was given by a past. -/
def Tracks (past : List Move) (host : Host) : Prop :=
  ∀ client b, host.pending? client = some b → b = received client past

theorem received_append (client : Client) (past : List Move) (m : Move) :
    received client (past ++ [m]) = m.carry client (received client past) := by
  simp [received]

/-- A client that begins has been given nothing, and any other has been given what it had and what its move brings. -/
theorem tracks_after {past : List Move} {m : Move} (h : Tracks past m.before) : Tracks (past ++ [m]) m.after := by
  intro client b hb
  rw [received_append]
  by_cases hc : m.action.client = client
  · subst hc
    rcases m.pending?_after hb with ⟨hbegins, rfl⟩ | ⟨got, hgot, rfl⟩
    · exact (m.carry_self_of_begins hbegins _).symm
    · rw [← h _ _ hgot]
  · rw [m.pending?_after_of_ne hc] at hb
    rw [m.carry_of_ne hc]
    exact h client b hb

theorem tracks_new (store : Store) : Tracks [] { store := store } := by
  intro client b h
  cases client with
  | direct => cases h; rfl
  | handle id => cases h
  | session id => cases h

theorem tracks_run (store : Store) (steps : List (Lock × Action)) :
    Tracks (moves { store := store } steps) (run { store := store } steps).1 :=
  run_induction (tracks_new store) (fun _ _ => tracks_after) steps

/-! ## Sessions -/

/-- A host whose sessions are all at a sound stage. -/
def Sound (host : Host) : Prop :=
  ∀ id live, host.sessions id = some live → live.stage.Sound live.settings.commandLimit

theorem sound_after {m : Move} (h : m.before.Sound) : m.after.Sound := by
  intro id live hlive
  by_cases hc : m.action.client = .session id
  · obtain ⟨host, lock, action⟩ := m
    cases action with
    | startSession other settings =>
      obtain rfl : other = id := by simpa [Action.client] using hc
      obtain rfl : _ = live := by simpa [Move.after, step, setAt] using hlive
      exact ⟨rfl, Nat.zero_le _, rfl⟩
    | hear other a =>
      obtain rfl : other = id := by simpa [Action.client] using hc
      rcases hs : host.sessions other with _ | ⟨settings, draft | decision⟩
      · simp [Move.after, step, hs] at hlive
      · obtain rfl : _ = live := by simpa [Move.after, step, setAt, hs] using hlive
        exact Session.sound_receive (h other _ hs) a
      · exact h other live (by simpa [Move.after, step, hs] using hlive)
    | settle other outlet =>
      obtain rfl : other = id := by simpa [Action.client] using hc
      rcases hs : host.sessions other with _ | ⟨settings, draft | decision⟩
      · simp [Move.after, step, hs] at hlive
      · exact h other live (by simpa [Move.after, step, hs] using hlive)
      · simp [Move.after, step, setAt, hs] at hlive
    | abandon other =>
      obtain rfl : other = id := by simpa [Action.client] using hc
      simp [Move.after, step, setAt] at hlive
    | _ => cases hc
  · rw [m.sessions_after_of_ne hc] at hlive
    exact h id live hlive

theorem sound_run {store : Store} (steps : List (Lock × Action)) : (run { store := store } steps).1.Sound := by
  refine run_induction (P := fun _ host => host.Sound) ?_ (fun _ _ => sound_after) steps
  intro id live h
  cases h

theorem Move.getLast?_of_offer? {m : Move} (hs : m.before.Sound) {e : Entry} (h : m.offer? = some e)
    (hc : m.action.client ≠ .direct) : e.getLast? = some newline := by
  rcases m.offer?_cases h with ha | ⟨id, h₀, -, -, he⟩ | ⟨id, settings, -, -, hsession⟩
  · exact absurd (by rw [ha]; rfl) hc
  · exact (Handle.ended?_eq_some he).2.1
  · exact (hs id _ hsession).1

/-! ## Replies -/

/-- A session ends with a transcript only where it settles. -/
theorem Move.answer_eq_ended {m : Move} {t : Transcript} {result : Except Failure Session.Outcome}
    (h : m.answer = .ended t result) :
    ∃ id outlet settings decision, m.action = .settle id outlet ∧
      m.before.sessions id = some ⟨settings, .decided decision⟩ ∧
      Session.settle outlet.sink settings.chunk m.lock m.before.store [] decision = (m.after.store, t, result) := by
  obtain ⟨host, lock, action⟩ := m
  cases action with
  | settle id outlet =>
    rcases hs : host.sessions id with _ | ⟨settings, draft | decision⟩
    · simp [answer, step, hs] at h
    · simp [answer, step, hs] at h
    · have hans : answer ⟨host, lock, .settle id outlet⟩ =
          .ended (Session.settle outlet.sink settings.chunk lock host.store [] decision).2.1
            (Session.settle outlet.sink settings.chunk lock host.store [] decision).2.2 := by
        simp only [answer, step, hs]
      obtain ⟨ht, hresult⟩ := Answer.ended.inj (hans.symm.trans h)
      refine ⟨id, outlet, settings, decision, rfl, hs, ?_⟩
      rw [← ht, ← hresult]
      simp only [after, step, hs]
  | write | writeAll | flush | read | readAll | seek | seekTo =>
    exact absurd h (withHandle_answer_ne _ _ _ _ rfl fun a ha => by cases ha)
  | hear id a =>
    simp only [answer, step] at h
    split at h <;> cases h
  | commit e =>
    simp only [answer, step] at h
    cases hr : (host.store.commit lock e).2 <;> rw [hr] at h <;> cases h
  | snapshot =>
    simp only [answer, step] at h
    cases hr : host.store.snapshot lock <;> rw [hr] at h <;> cases h
  | count =>
    simp only [answer, step] at h
    cases hr : host.store.count lock <;> rw [hr] at h <;> cases h
  | size =>
    simp only [answer, step] at h
    cases hr : host.store.size lock <;> rw [hr] at h <;> cases h
  | clear | openHandle | closeHandle | startSession | abandon => cases h

/-- What a session did that reports a commit: it inserted the entry that it was to keep, and was sent the log from
then, whole. -/
theorem Move.answer_eq_committed {m : Move} (hs : m.before.Sound) (hwf : m.before.store.log.WF) {t : Transcript}
    {evicted : Bool} {sent : Nat} (h : m.answer = .ended t (.ok (.committed evicted sent))) :
    ∃ id e, m.action.client = .session id ∧ m.commit? = some e ∧ m.after.store.log = (m.before.store.log.insert e).1 ∧
      t.accepted = m.after.store.log.bytes ∧ sent = t.accepted.length ∧ evicted = m.before.store.log.full := by
  obtain ⟨id, outlet, settings, decision, haction, hsession, hsettle⟩ := answer_eq_ended h
  obtain ⟨e, rfl, hl, hev, hn⟩ := Session.settle_eq_committed _ _ _ (hs id _ hsession) (congrArg (·.2.2) hsettle)
  rw [Session.settle_keep _ _ _ hl] at hsettle
  obtain ⟨hstore, hsent⟩ := Prod.mk.inj hsettle
  obtain ⟨hacc, hlen⟩ := Outlet.accepted_of_stream_eq_ok outlet (Prod.ext (congrArg (·.1) hsent) hn)
  refine ⟨id, e, by rw [haction]; rfl, ?_, by rw [← hstore]; rfl, ?_, hlen, ?_⟩
  · rw [commit?_of_ok hl]
    unfold offer?
    rw [haction]
    simp only [hsession]
  · rw [hacc, List.drop_zero, hstore]
  · rw [hev]; exact Ring.isSome_insert_snd hwf e

/-- A session that commits reports that it did, where its peer takes everything. -/
theorem Move.answer_of_commit_accepting {m : Move} {id : ClientId} (ha : m.action = .settle id .accepting) {e : Entry}
    (h : m.commit? = some e) : ∃ t evicted sent, m.answer = .ended t (.ok (.committed evicted sent)) := by
  obtain ⟨host, lock, action⟩ := m
  obtain rfl : action = _ := ha
  obtain ⟨hl, ho⟩ := commit?_eq_some _ h
  unfold offer? at ho
  dsimp only at ho
  split at ho
  · rename_i settings e' hsession
    simp only [answer, step, hsession, Session.settle_keep _ _ _ hl, Outlet.stream_accepting, Except.map]
    exact ⟨_, _, _, rfl⟩
  · cases ho

/-! ## The main statement -/

/-- What a session was sent, where it reports a commit. -/
def Move.reply? (m : Move) : Option Bytes :=
  match m.answer with
  | .ended t (.ok (.committed ..)) => some t.accepted
  | _ => none

theorem Move.reply?_eq_some {m : Move} {reply : Bytes} (h : m.reply? = some reply) :
    ∃ t evicted sent, m.answer = .ended t (.ok (.committed evicted sent)) ∧ reply = t.accepted := by
  unfold reply? at h
  split at h
  · rename_i t evicted sent hans
    cases h; exact ⟨t, evicted, sent, hans, rfl⟩
  · cases h

/-- Commits and replies are in one order. Take any run from a new store with room for `capacity` entries. The log is
the last of the entries committed since the last clearing, in the order in which the lock was had. An entry that is
committed is what its client alone was given since it began or last committed, and it is an ended command, unless the
client gave it as it is. A session that reports a commit has made one; what it was sent is the log right after, which
ends with its own entry, and it says how long that is, and whether the log was full just before. One that commits
reports it, where its peer takes everything. And where nothing is cleared and there are no more commits than there is
room for, the earlier of two such replies begins the later one. -/
theorem commits_in_one_order {capacity : Nat} {store : Store} (h : Ring.create capacity = .ok store.log)
    (steps : List (Lock × Action)) :
    let past := moves { store := store } steps
    (run { store := store } steps).1.store.log.toList = (committed past).rtake capacity ∧
    (∀ before m after, past = before ++ m :: after → ∀ e, m.commit? = some e →
      e = received m.action.client before ++ m.action.bytes ∧
      (m.action.client ≠ .direct → e.getLast? = some newline)) ∧
    (∀ m ∈ past, ∀ t evicted sent, m.answer = .ended t (.ok (.committed evicted sent)) →
      ∃ id e, m.action.client = .session id ∧ m.commit? = some e ∧ t.accepted = m.after.store.log.bytes ∧
        e <:+ t.accepted ∧ sent = t.accepted.length ∧ (evicted = true ↔ m.before.store.log.full = true)) ∧
    (∀ m ∈ past, ∀ id e, m.action = .settle id .accepting → m.commit? = some e →
      ∃ t evicted sent, m.answer = .ended t (.ok (.committed evicted sent))) ∧
    ((∀ m ∈ past, m.action.clears = false) → (past.filterMap Move.commit?).length ≤ capacity →
      past.Pairwise fun m₁ m₂ => ∀ reply₁ ∈ m₁.reply?, ∀ reply₂ ∈ m₂.reply?, reply₁ <+: reply₂) := by
  intro past
  -- a move of the run is made on a sound host with a well-formed ring, so a reported commit is one
  have hreply : ∀ before m after, past = before ++ m :: after → ∀ t evicted sent,
      m.answer = .ended t (.ok (.committed evicted sent)) →
      ∃ id e, m.action.client = .session id ∧ m.commit? = some e ∧
        m.after.store.log = (m.before.store.log.insert e).1 ∧ t.accepted = m.after.store.log.bytes ∧
        sent = t.accepted.length ∧ evicted = m.before.store.log.full := by
    intro before m after hpast t evicted sent hans
    obtain ⟨a, b, -, -, hbefore, -⟩ := exists_of_moves_eq steps hpast
    refine m.answer_eq_committed ?_ (toList_after h hpast).1 hans
    rw [hbefore]; exact sound_run a
  refine ⟨?_, ?_, ?_, ?_, ?_⟩
  · obtain ⟨_, hq⟩ := queued_run h steps
    exact hq.toList_eq
  · intro before m after hpast e hcommit
    obtain ⟨a, b, -, hbefore, hm, -⟩ := exists_of_moves_eq steps hpast
    obtain ⟨-, hoffer⟩ := m.commit?_eq_some hcommit
    refine ⟨?_, fun hc => ?_⟩
    · obtain ⟨got, hgot, rfl⟩ := m.offer?_eq_some hoffer
      have htracks : Tracks before m.before := by
        rw [hbefore, hm]; exact tracks_run store a
      rw [← htracks _ _ hgot]
    · refine Move.getLast?_of_offer? ?_ hoffer hc
      rw [hm]; exact sound_run a
  · intro m hm t evicted sent hans
    obtain ⟨before, after, hpast⟩ := List.append_of_mem hm
    obtain ⟨id, e, hclient, hcommit, hlog, hacc, hsent, hev⟩ := hreply before m after hpast t evicted sent hans
    refine ⟨id, e, hclient, hcommit, hacc, ?_, hsent, by rw [hev]⟩
    rw [hacc, hlog, Log.bytes, Ring.toList_insert (toList_after h hpast).1, List.flatten_append]
    exact ⟨_, by rw [List.flatten_singleton]⟩
  · intro m hm id e ha hcommit
    exact Move.answer_of_commit_accepting ha hcommit
  · intro hclear hroom
    -- every reply is all that was committed up to it
    have hall : ∀ before m after, past = before ++ m :: after → ∀ reply ∈ m.reply?,
        reply = ((before ++ [m]).filterMap Move.commit?).flatten := by
      intro before m after hpast reply hr
      obtain ⟨t, evicted, sent, hans, rfl⟩ := Move.reply?_eq_some hr
      obtain ⟨-, -, -, -, -, hacc, -⟩ := hreply before m after hpast t evicted sent hans
      have hsub : (before ++ [m]).Sublist past := by
        rw [hpast]; exact List.Sublist.append_left (List.cons_sublist_cons.2 (List.nil_sublist after)) before
      have hnone : ∀ m' ∈ before ++ [m], m'.action.clears = false := fun m' hm' => hclear m' (hsub.subset hm')
      have hle := (hsub.filterMap Move.commit?).length_le
      rw [hacc, Log.bytes, (toList_after h hpast).2, committed_eq_filterMap hnone, List.rtake,
        Nat.sub_eq_zero_of_le (by omega), List.drop_zero]
    rw [List.pairwise_iff_getElem]
    intro i j hi hj hij reply₁ hr₁ reply₂ hr₂
    have hsplit : ∀ k (hk : k < past.length), past = past.take k ++ past[k] :: past.drop (k + 1) := by
      intro k hk; rw [List.getElem_cons_drop, List.take_append_drop]
    rw [hall _ _ _ (hsplit i hi) reply₁ hr₁, hall _ _ _ (hsplit j hj) reply₂ hr₂,
      List.take_append_getElem, List.take_append_getElem]
    have hprefix := List.take_prefix_take_left (l := past) (show i + 1 ≤ j + 1 by omega)
    obtain ⟨more, hmore⟩ := List.IsPrefix.filterMap Move.commit? hprefix
    exact ⟨more.flatten, by rw [← hmore, List.flatten_append]⟩

/-- Two sessions, of which the one that began last has the lock first, and a commit that is refused the lock. -/
theorem commits_in_one_order_two_sessions :
    let store : Store := { log := Ring.empty 2, patience := some 1000 }
    let steps : List (Lock × Action) :=
      [(.free, .startSession 0 ⟨4, 64, 0, 0⟩), (.free, .startSession 1 ⟨1, 64, 0, 0⟩), (.free, .hear 0 (.bytes [97])),
        (.free, .hear 1 (.bytes [98, 10])), (.held, .commit [99, 10]), (.free, .hear 0 (.bytes [10])),
        (.free, .settle 1 .accepting), (.free, .settle 0 .accepting)]
    Ring.create 2 = .ok store.log ∧
      (run { store := store } steps).1.store.log.toList = [[98, 10], [97, 10]] ∧
      (moves { store := store } steps).filterMap Move.reply? = [[98, 10], [98, 10, 97, 10]] ∧
      (moves { store := store } steps).Pairwise fun m₁ m₂ =>
        ∀ reply₁ ∈ m₁.reply?, ∀ reply₂ ∈ m₂.reply?, reply₁ <+: reply₂ := by
  intro store steps
  have hnew : Ring.create 2 = .ok store.log := rfl
  obtain ⟨hlog, -, -, -, hprefix⟩ := commits_in_one_order hnew steps
  exact ⟨hnew, hlog.trans (by decide), by decide, hprefix (by decide) (by decide)⟩

end Host

end LineRing
