/-
Sessions with every step checked, allocations included. An allocation holds at most `allocationLimit` bytes. The receive
buffer and the message of a bad directive are allocated outright, and a session breaks off where that cannot be; the
draft asks for room, and is refused where there is none. Main statement: with settings from a configuration that is
accepted, a session breaks off where the receive buffer is too large, which the configuration is not checked for, and
otherwise only for a message that is (`breaks_off_where_chunk_too_large`).

What keeps the sums within a word is that a draft is in one allocation, so that it and one more piece are counted by a
word, and that the log has room for a draft besides.
-/
import LineRing.Proofs.Checked.Log
import LineRing.Proofs.Directive.Message
import LineRing.Proofs.Session.Commit

namespace LineRing

open Session

namespace Checked

/-! ## Allocations -/

/-- Room for so many bytes in one allocation. -/
def allocate (bytes : Nat) : Except Breach Unit := if bytes ≤ allocationLimit then .ok () else .error .tooLarge

/-- A text that has been put together. -/
def compose (text : String) : Except Breach String := do
  allocate text.utf8ByteSize
  return text

/-- The draft with more bytes received. It stays as it is where the limit is exceeded, or no allocation holds it. -/
def append (draft : Draft) (more : Bytes) : Except Breach (Except Failure Draft) := do
  let size ← add draft.size more.length
  match draft.append more with
  | .error failure => return .error failure
  | .ok next => return if size ≤ allocationLimit then .ok next else .error (.allocation size)

/-! ## Decisions -/

/-- The refusal of a bad directive. -/
def refuse (fault : DirectiveFault) : Except Breach Decision := do
  let text ← compose fault.message
  return .close (.error (.protocol text))

/-- What an ended command leads to. -/
def ofCommand (command : Entry) : Except Breach Decision :=
  match Request.ofCommand command with
  | .ok (.seek d) => .ok (.seek d)
  | .ok (.keep content) => .ok (.keep content)
  | .error fault => refuse fault

/-- What the end of the peer's bytes leads to. -/
def atEnd (draft : Draft) : Except Breach Decision :=
  match Directive.read? draft.bytes with
  | some (.ok d) => .ok (.seek d)
  | some (.error fault) => refuse fault
  | none => .ok (.close (.ok (.disconnected draft.size)))

/-- The bytes of one read join the draft. -/
def accept (draft : Draft) (piece : Bytes) : Except Breach Stage := do
  let appended ← append draft piece
  match appended with
  | .error failure => return .decided (.close (.error failure))
  | .ok draft =>
    match draft.take with
    | (none, draft) => return .receiving draft
    | (some command, _) =>
      let decision ← ofCommand command
      return .decided decision

/-- One read into a buffer of this size. -/
def receive (buffer : Nat) (draft : Draft) : Arrival → Except Breach Stage
  | .bytes [] => do
    let decision ← atEnd draft
    return .decided decision
  | .bytes piece => if piece.length ≤ buffer then accept draft piece else .error .outOfBounds
  | .fault fault => .ok (Session.receive draft (.fault fault))

/-! ## Sessions -/

section

variable {σ : Type}

/-- Does what was decided. A commit looks at the number of entries once more, for a message. -/
def settle (sink : Sink σ) (chunk : Nat) (lock : Lock) (store : Store) (s : σ) :
    Decision → Except Breach (Store × σ × Except Failure Outcome)
  | .close result => .ok (store, s, result)
  | .keep e =>
    match store.acquire lock with
    | .error failure => .ok (store, s, .error failure)
    | .ok () => do
      let (log, evicted) ← insert store.log e
      let _retained ← count log
      let (s, sent) ← stream log 0 chunk sink s
      return ({ store with log := log }, s, sent.map (.committed evicted.isSome))
  | .seek d =>
    match store.acquire lock with
    | .error failure => .ok (store, s, .error failure)
    | .ok () => do
      let found ← offsetOf store.log d.address
      match found with
      | .error failure => return (store, s, .error failure)
      | .ok offset =>
        let (s, sent) ← stream store.log offset chunk sink s
        return (store, s, sent.map (.sought offset))

/-- A session that settles after one more read, with this left of its script. -/
def conclude (sink : Sink σ) (chunk : Nat) (lock : Lock) (store : Store) (s : σ) (decision : Decision)
    (rest : List Event) : Except Breach (Report σ) := do
  let (store, s, result) ← settle sink chunk lock store s decision
  return ⟨store, s, result, 1, rest⟩

/-- A session from a draft on, read by read. -/
def converse (sink : Sink σ) (chunk : Nat) (lock others : Lock) (store : Store) (s : σ) (draft : Draft) :
    List Event → Except Breach (Report σ)
  | [] => do
    let decision ← atEnd draft
    conclude sink chunk lock store s decision []
  | .commit e :: rest => converse sink chunk lock others (store.commit others e).1 s draft rest
  | .arrival a :: rest => do
    let stage ← receive (max chunk 1) draft a
    match stage with
    | .receiving draft =>
      let report ← converse sink chunk lock others store s draft rest
      return { report with reads := report.reads + 1 }
    | .decided decision => conclude sink chunk lock store s decision rest

/-- Runs a session to its end. -/
def handle (session : Session) (sink : Sink σ) (lock : Lock) (store : Store) (s : σ) (script : List Event)
    (others : Lock := lock) : Except Breach (Session × Report σ) := do
  let settings := session.settings
  allocate settings.buffer
  let report ← converse sink settings.chunk lock others store s { limit := some settings.commandLimit }
    (cutScript settings.buffer script)
  return ({ session with phase := .closed }, report)

end

/-! ## Conclusions -/

/-- A bad directive whose message no allocation holds. -/
def Overlong (command : Bytes) : Prop :=
  ∃ fault, Directive.read? command = some (.error fault) ∧ allocationLimit < fault.message.utf8ByteSize

/-- Whether a computation of a session comes to something of this kind, which is what is meant where a draft within its
limit is always given room; or breaks off for the message of a bad directive within the limit. -/
def Concludes {α : Type} (limit : Nat) (kind : α → Prop) (run : Except Breach α) (meant : α) : Prop :=
  (∃ a, run = .ok a ∧ kind a ∧ (limit ≤ allocationLimit → a = meant)) ∨
  ∃ command, command.length ≤ limit ∧ Overlong command ∧ run = .error .tooLarge

section

variable {α β : Type} {limit : Nat} {kind : α → Prop} {next : β → Prop} {run : Except Breach α} {meant : α}

theorem Concludes.ok {a : α} (hkind : kind a) (hmeant : limit ≤ allocationLimit → a = meant) :
    Concludes limit kind (.ok a) meant := Or.inl ⟨a, rfl, hkind, hmeant⟩

theorem Concludes.bind (h : Concludes limit kind run meant) {f : α → Except Breach β} {result : β}
    (hf : ∀ a, kind a → (limit ≤ allocationLimit → a = meant) → Concludes limit next (f a) result) :
    Concludes limit next (run >>= f) result := by
  rcases h with ⟨a, rfl, hkind, hmeant⟩ | ⟨command, hle, hlong, rfl⟩
  · exact hf a hkind hmeant
  · exact Or.inr ⟨command, hle, hlong, rfl⟩

end

/-- What is kept of the bytes of a peer, within this limit, is in one allocation. -/
def Held (limit : Nat) : Stage → Prop
  | .receiving draft => draft.limit = some limit ∧ draft.size ≤ limit ∧ draft.size ≤ allocationLimit
  | .decided (.keep e) => e.length ≤ allocationLimit
  | .decided _ => True

/-! ## Decisions are reached -/

section

variable {limit : Nat}

theorem refuse_concludes {command : Bytes} (hle : command.length ≤ limit) {fault : DirectiveFault}
    (hread : Directive.read? command = some (.error fault)) :
    Concludes limit (fun decision => Held limit (.decided decision)) (refuse fault) (.close (.error fault.failure)) := by
  unfold refuse compose allocate
  by_cases hfits : fault.message.utf8ByteSize ≤ allocationLimit
  · rw [if_pos hfits]
    exact .ok trivial fun _ => rfl
  · rw [if_neg hfits]
    exact Or.inr ⟨command, hle, ⟨fault, hread, Nat.lt_of_not_le hfits⟩, rfl⟩

theorem ofCommand_concludes {command : Entry} (hle : command.length ≤ limit) (hheld : command.length ≤ allocationLimit) :
    Concludes limit (fun decision => Held limit (.decided decision)) (ofCommand command) (.ofCommand command) := by
  unfold ofCommand Decision.ofCommand
  rcases hrequest : Request.ofCommand command with fault | (d | content)
  · exact refuse_concludes hle (Request.ofCommand_eq_error_iff.1 hrequest)
  · exact .ok trivial fun _ => rfl
  · obtain ⟨rfl, -⟩ := Request.ofCommand_eq_keep_iff.1 hrequest
    exact .ok hheld fun _ => rfl

theorem atEnd_concludes {draft : Draft} (hle : draft.size ≤ limit) :
    Concludes limit (fun decision => Held limit (.decided decision)) (atEnd draft) (.atEnd draft) := by
  unfold atEnd Decision.atEnd
  rcases hread : Directive.read? draft.bytes with _ | (fault | d)
  · exact .ok trivial fun _ => rfl
  · exact refuse_concludes hle hread
  · exact .ok trivial fun _ => rfl

/-! ## One read -/

theorem two_allocations_lt : allocationLimit + allocationLimit < wordRange := by decide

/-- A draft and one more piece are counted by a word. The draft refuses the piece, or is given room, or is not. -/
theorem append_cases {draft : Draft} {more : Bytes} (hdraft : draft.size ≤ allocationLimit)
    (hmore : more.length ≤ allocationLimit) :
    (∃ failure, draft.append more = .error failure ∧ append draft more = .ok (.error failure)) ∨
    (∃ next, draft.append more = .ok next ∧ next.size ≤ allocationLimit ∧ append draft more = .ok (.ok next)) ∨
    (∃ next, draft.append more = .ok next ∧ allocationLimit < next.size ∧
      append draft more = .ok (.error (.allocation next.size))) := by
  have hsum : draft.size + more.length < wordRange :=
    Nat.lt_of_le_of_lt (Nat.add_le_add hdraft hmore) two_allocations_lt
  unfold append
  rw [add_eq hsum, ok_bind]
  cases happend : draft.append more with
  | error failure => exact Or.inl ⟨failure, rfl, rfl⟩
  | ok next =>
    have hsize : draft.size + more.length = next.size := by
      obtain ⟨-, rfl⟩ := Draft.append_eq_ok_iff.1 happend
      exact List.length_append.symm
    dsimp only
    rw [hsize]
    by_cases hle : next.size ≤ allocationLimit
    · rw [if_pos hle]
      exact Or.inr (Or.inl ⟨next, rfl, hle, rfl⟩)
    · rw [if_neg hle]
      exact Or.inr (Or.inr ⟨next, rfl, Nat.lt_of_not_le hle, rfl⟩)

theorem accept_concludes {draft : Draft} (hdraft : Held limit (.receiving draft)) {piece : Bytes}
    (hpiece : piece.length ≤ allocationLimit) :
    Concludes limit (Held limit) (accept draft piece) (Session.accept draft piece) := by
  obtain ⟨hlimit, -, hsize⟩ := hdraft
  have hwithin : ∀ next, draft.append piece = .ok next → next.limit = some limit ∧ next.size ≤ limit := by
    intro next hnext
    obtain ⟨hle, rfl⟩ := Draft.append_eq_ok_iff.1 hnext
    refine ⟨hlimit, ?_⟩
    unfold Draft.size
    rw [List.length_append]
    exact hle limit hlimit
  unfold accept Session.accept
  rcases append_cases hsize hpiece with ⟨failure, hplain, happend⟩ | ⟨next, hplain, hle, happend⟩ |
    ⟨next, hplain, hlt, happend⟩
  · rw [happend, hplain]
    exact .ok trivial fun _ => rfl
  · obtain ⟨hnext, hnextle⟩ := hwithin next hplain
    rw [happend, hplain, ok_bind]
    dsimp only
    cases hcomplete : next.isComplete with
    | false =>
      rw [Draft.take_of_not_isComplete hcomplete]
      exact .ok ⟨hnext, hnextle, hle⟩ fun _ => rfl
    | true =>
      rw [Draft.take_of_isComplete hcomplete]
      apply (ofCommand_concludes hnextle hle).bind
      intro decision hheld hmeant
      exact .ok hheld fun hlow => by rw [hmeant hlow]
  -- the limit is above what an allocation holds, and the room is refused
  · obtain ⟨-, hnextle⟩ := hwithin next hplain
    rw [happend]
    exact .ok trivial fun hlow => absurd hlow (by omega)

theorem receive_concludes {buffer : Nat} (hbuffer : buffer ≤ allocationLimit) {draft : Draft}
    (hdraft : Held limit (.receiving draft)) {a : Arrival} (ha : ∀ piece, a = .bytes piece → piece.length ≤ buffer) :
    Concludes limit (Held limit) (receive buffer draft a) (Session.receive draft a) := by
  cases a with
  | fault fault =>
    have hheld : Held limit (Session.receive draft (.fault fault)) := by
      unfold Session.receive
      dsimp only
      split
      · exact hdraft
      · trivial
    exact .ok hheld fun _ => rfl
  | bytes piece =>
    cases piece with
    | nil =>
      apply (atEnd_concludes hdraft.2.1).bind
      intro decision hheld hmeant
      exact .ok hheld fun hlow => by rw [hmeant hlow]; rfl
    | cons b rest =>
      have hpiece := ha _ rfl
      have hreceive : receive buffer draft (.bytes (b :: rest)) = accept draft (b :: rest) := if_pos hpiece
      rw [hreceive]
      exact accept_concludes hdraft (Nat.le_trans hpiece hbuffer)

end

/-! ## Settling -/

theorem size_insert_le {log : Log} (hwf : log.WF) (e : Entry) : Log.size (log.insert e).1 ≤ log.size + e.length := by
  have htail : totalLength log.toList.tail ≤ totalLength log.toList := by
    cases log.toList with
    | nil => exact Nat.le_refl _
    | cons first rest => rw [totalLength_cons]; exact Nat.le_add_left _ _
  unfold Log.size
  rw [Ring.toList_insert hwf, totalLength_append, totalLength_singleton]
  split <;> omega

section

variable {σ : Type} {sink : Sink σ} {chunk : Nat} {lock others : Lock} {store : Store}

theorem settle_eq (hfits : store.log.Fits) (hsize : store.log.size < wordRange) {decision : Decision}
    (hroom : ∀ e, decision = .keep e → store.log.size + e.length < wordRange) (s : σ) :
    settle sink chunk lock store s decision = .ok (Session.settle sink chunk lock store s decision) := by
  cases decision with
  | close result => rfl
  | keep e =>
    have hnext := hfits.insert e
    have hnextsize := Nat.lt_of_le_of_lt (size_insert_le hfits.wf e) (hroom e rfl)
    unfold settle Session.settle
    cases store.acquire lock with
    | error failure => rfl
    | ok u =>
      dsimp only
      rw [insert_eq hfits, ok_bind, count_eq hnext, ok_bind, stream_eq hnext hnextsize, ok_bind]
      rfl
  | seek d =>
    unfold settle Session.settle
    cases store.acquire lock with
    | error failure => rfl
    | ok u =>
      dsimp only
      rw [offsetOf_eq hfits hsize, ok_bind]
      cases store.log.offsetOf d.address with
      | error failure => rfl
      | ok offset =>
        dsimp only
        rw [stream_eq hfits hsize, ok_bind]
        rfl

/-- The log has room for what others commit in a script, and for one allocation besides. -/
def HasRoom (store : Store) (script : List Event) : Prop :=
  store.log.size + totalLength (foreign script) + allocationLimit < wordRange

instance (store : Store) (script : List Event) : Decidable (HasRoom store script) := inferInstanceAs (Decidable (_ < _))

theorem HasRoom.commit {e : Entry} {rest : List Event} (hfits : store.log.Fits)
    (hroom : HasRoom store (.commit e :: rest)) :
    (store.commit others e).1.log.Fits ∧ HasRoom (store.commit others e).1 rest := by
  unfold HasRoom at hroom ⊢
  rw [foreign_commit, totalLength_cons] at hroom
  unfold Store.commit
  cases store.acquire others with
  | error failure => exact ⟨hfits, by dsimp only; omega⟩
  | ok u =>
    have hsize := size_insert_le hfits.wf e
    exact ⟨hfits.insert e, by dsimp only [Store.insert]; omega⟩

theorem conclude_eq (hfits : store.log.Fits) {script : List Event} (hroom : HasRoom store script) {limit : Nat}
    {decision : Decision} (hheld : Held limit (.decided decision)) (s : σ) (rest : List Event) :
    conclude sink chunk lock store s decision rest =
      .ok (let settled := Session.settle sink chunk lock store s decision
        ⟨settled.1, settled.2.1, settled.2.2, 1, rest⟩) := by
  unfold HasRoom at hroom
  unfold conclude
  rw [settle_eq hfits (by omega), ok_bind]
  · rfl
  · rintro e rfl
    have hle : e.length ≤ allocationLimit := hheld
    omega

/-- A session is held in memory from read to read, and others leave room. The induction is on the script. -/
theorem converse_concludes (hbuffer : max chunk 1 ≤ allocationLimit) {limit : Nat} (s : σ) (script : List Event) :
    ∀ {store : Store} {draft : Draft}, store.log.Fits → HasRoom store script → Held limit (.receiving draft) →
      (∀ piece, .arrival (.bytes piece) ∈ script → piece.length ≤ max chunk 1) →
      Concludes limit (fun _ => True) (converse sink chunk lock others store s draft script)
        (Session.converse sink chunk lock others store s draft script) := by
  induction script with
  | nil =>
    intro store draft hfits hroom hdraft _
    apply (atEnd_concludes hdraft.2.1).bind
    intro decision hheld hmeant
    rw [conclude_eq hfits hroom hheld]
    exact .ok trivial fun hlow => by rw [Session.converse, hmeant hlow]
  | cons event rest ih =>
    intro store draft hfits hroom hdraft hpieces
    have hrest : ∀ piece, .arrival (.bytes piece) ∈ rest → piece.length ≤ max chunk 1 :=
      fun piece hmem => hpieces piece (List.mem_cons_of_mem _ hmem)
    cases event with
    | commit e =>
      obtain ⟨hnext, hnextroom⟩ := hroom.commit hfits
      exact ih hnext hnextroom hdraft hrest
    | arrival a =>
      have hroom : HasRoom store rest := hroom
      have ha : ∀ piece, a = .bytes piece → piece.length ≤ max chunk 1 :=
        fun piece hpiece => hpieces piece (by rw [hpiece]; exact List.mem_cons_self)
      apply (receive_concludes hbuffer hdraft ha).bind
      intro stage hheld hmeant
      cases stage with
      | decided decision =>
        dsimp only
        rw [conclude_eq hfits hroom hheld]
        exact .ok trivial fun hlow => by rw [Session.converse, ← hmeant hlow]
      | receiving next =>
        apply (ih hfits hroom hheld hrest).bind
        intro report _ hreport
        exact .ok trivial fun hlow => by rw [Session.converse, ← hmeant hlow, hreport hlow]

end

/-! ## Scripts -/

theorem length_le_of_mem_cutScript {buffer : Nat} {script : List Event} {piece : Bytes}
    (h : .arrival (.bytes piece) ∈ cutScript buffer script) : piece.length ≤ max buffer 1 := by
  obtain ⟨event, -, hcut⟩ := List.mem_flatMap.1 h
  unfold Event.cut at hcut
  split at hcut
  · cases List.mem_singleton.1 hcut
    exact Nat.zero_le _
  · obtain ⟨p, hp, heq⟩ := List.mem_map.1 hcut
    cases heq
    exact (length_of_mem_pieces hp).2
  · next _ hother =>
    obtain rfl := List.mem_singleton.1 hcut
    exact absurd rfl (hother piece)

theorem foreign_append (script rest : List Event) : foreign (script ++ rest) = foreign script ++ foreign rest :=
  List.filterMap_append

theorem foreign_cutScript (buffer : Nat) (script : List Event) : foreign (cutScript buffer script) = foreign script := by
  induction script with
  | nil => rfl
  | cons event rest ih =>
    have happend : cutScript buffer (event :: rest) = event.cut buffer ++ cutScript buffer rest := rfl
    have hevent : foreign (event.cut buffer) = foreign [event] := by
      unfold Event.cut
      split
      · rfl
      · exact List.filterMap_eq_nil_iff.2 fun ev hev => by
          obtain ⟨p, -, rfl⟩ := List.mem_map.1 hev
          rfl
      · rfl
    rw [happend, foreign_append, hevent, ih, ← foreign_append]
    rfl

/-! ## Sessions as a whole -/

theorem buffer_le_iff (settings : Settings) : settings.buffer ≤ allocationLimit ↔ settings.chunk < 2 ^ 63 := by
  unfold Settings.buffer allocationLimit UInt64.size
  omega

theorem handle_of_large {session : Session} (hchunk : 2 ^ 63 ≤ session.settings.chunk) {σ : Type} (sink : Sink σ)
    (lock others : Lock) (store : Store) (s : σ) (script : List Event) :
    handle session sink lock store s script others = .error .tooLarge := by
  have hbuffer : ¬ session.settings.buffer ≤ allocationLimit := by
    rw [buffer_le_iff]; omega
  unfold handle allocate
  dsimp only
  rw [if_neg hbuffer]
  rfl

/-- The message of a bad directive takes too much only if the directive itself is of this size. -/
theorem Overlong.le_length {command : Bytes} (h : Overlong command) : 2 ^ 57 ≤ command.length := by
  obtain ⟨fault, hread, hlong⟩ := h
  have hle := Directive.utf8ByteSize_message_le hread
  unfold allocationLimit UInt64.size at hlong
  omega

/-- A session whose receive buffer is in one allocation ends, and is closed. -/
theorem handle_concludes {session : Session} (hchunk : session.settings.chunk < 2 ^ 63) {σ : Type} (sink : Sink σ)
    (lock others : Lock) {store : Store} (hfits : store.log.Fits) {script : List Event} (hroom : HasRoom store script)
    (s : σ) :
    Concludes session.settings.commandLimit (fun ended => ended.1.phase = .closed)
      (handle session sink lock store s script others)
      ({ session with phase := .closed }, Session.converse sink session.settings.chunk lock others store s
        ⟨[], some session.settings.commandLimit⟩ (cutScript session.settings.buffer script)) := by
  have hbuffer := (buffer_le_iff session.settings).2 hchunk
  have hcut : HasRoom store (cutScript session.settings.buffer script) := by
    unfold HasRoom
    rw [foreign_cutScript]
    exact hroom
  have hdraft : Held session.settings.commandLimit (.receiving ⟨[], some session.settings.commandLimit⟩) :=
    ⟨rfl, Nat.zero_le _, Nat.zero_le _⟩
  have hpieces : ∀ piece, .arrival (.bytes piece) ∈ cutScript session.settings.buffer script →
      piece.length ≤ max session.settings.chunk 1 := by
    intro piece hmem
    have hle := length_le_of_mem_cutScript hmem
    unfold Settings.buffer at hle
    omega
  unfold handle allocate
  dsimp only
  rw [if_pos hbuffer, ok_bind]
  apply (converse_concludes hbuffer s _ hfits hcut hdraft hpieces).bind
  intro report _ hreport
  exact .ok rfl fun hlow => by rw [hreport hlow]

end Checked

/-! ## The main statement -/

theorem Store.create_of_ofConfig {c : Config} {store : Store} (h : Store.ofConfig c = .ok store) :
    Ring.create c.capacity = .ok store.log := by
  unfold Store.ofConfig at h
  cases hvalid : c.validate with
  | error failure => rw [hvalid] at h; cases h
  | ok u =>
    rw [hvalid] at h
    cases hlog : (Ring.create c.capacity : Except Unmade Log) with
    | error failure => rw [hlog] at h; cases h
    | ok log => rw [hlog] at h; cases h; rfl

namespace Session

/-- When a session of an accepted configuration breaks off. Take a configuration that a store is set up from, whatever
its sizes are; the store as insertions and clearings have left it; any peer and any writer; and let there be room for
what others commit meanwhile, and for one allocation. Where the chunk size is 2⁶³ or more, the session breaks off before
it reads a byte. Otherwise it ends with a result, success or failure, and is closed; it breaks off only for a bad
directive of 2⁵⁷ bytes or more whose message no allocation holds, so not where commands are kept below that size, and
then it is the session that is meant. -/
theorem breaks_off_where_chunk_too_large {c : Config} {new : Store} (hnew : Store.ofConfig c = .ok new)
    (ops : List (Ring.Op Entry)) {σ : Type} (sink : Sink σ) (s : σ) (lock others : Lock) (script : List Event)
    (hroom : Checked.HasRoom { new with log := (new.log.run ops).1 } script) :
    let store : Store := { new with log := (new.log.run ops).1 }
    let session : Session := { settings := .ofConfig c }
    let run := Checked.handle session sink lock store s script others
    (2 ^ 63 ≤ c.chunk → run = .error .tooLarge) ∧
    (c.chunk < 2 ^ 63 →
      (∃ closed report, run = .ok (closed, report) ∧ closed.phase = .closed) ∨
      (∃ command, 2 ^ 57 ≤ command.length ∧ command.length ≤ c.commandLimit ∧ Checked.Overlong command ∧
        run = .error .tooLarge)) ∧
    (c.chunk < 2 ^ 63 → c.commandLimit < 2 ^ 57 →
      ∃ closed report, session.handle sink lock store s script others = .ok (closed, report) ∧
        run = .ok (closed, report)) := by
  intro store session run
  have hfits : store.log.Fits := Ring.Fits.run (Store.create_of_ofConfig hnew) ops
  refine ⟨fun hlarge => Checked.handle_of_large hlarge sink lock others store s script, fun hlow => ?_,
    fun hlow hlimit => ?_⟩
  · have hchunk : session.settings.chunk < 2 ^ 63 := hlow
    rcases Checked.handle_concludes hchunk sink lock others hfits hroom s with ⟨⟨closed, report⟩, hrun, hclosed, -⟩ |
      ⟨command, hle, hlong, hrun⟩
    · exact Or.inl ⟨closed, report, hrun, hclosed⟩
    · exact Or.inr ⟨command, hlong.le_length, hle, hlong, hrun⟩
  · have hchunk : session.settings.chunk < 2 ^ 63 := hlow
    have hsmall : session.settings.commandLimit ≤ allocationLimit := by
      show c.commandLimit ≤ allocationLimit
      unfold allocationLimit UInt64.size
      omega
    rcases Checked.handle_concludes hchunk sink lock others hfits hroom s with ⟨ended, hrun, -, hmeant⟩ |
      ⟨command, hle, hlong, -⟩
    · exact ⟨_, _, handle_eq hchunk sink lock others store s script, hrun.trans (congrArg Except.ok (hmeant hsmall))⟩
    · have hge := hlong.le_length
      exact absurd (Nat.le_trans hge hle) (by show ¬ 2 ^ 57 ≤ c.commandLimit; omega)

/-- A command that comes in one piece, through a buffer that is shorter, to a store that has evicted. -/
theorem breaks_off_where_chunk_too_large_short_buffer :
    let c : Config := { capacity := 1, commandLimit := 64, chunk := 2 }
    let new : Store := { log := Ring.empty 1, patience := some 10000000, draftLimit := some 64 }
    let script : List Event := [.arrival (.bytes [97, 98, 10])]
    let store : Store := { new with log := (new.log.run [.insert [10], .insert [99, 10]]).1 }
    Store.ofConfig c = .ok new ∧ Checked.HasRoom store script ∧ c.chunk < 2 ^ 63 ∧ c.commandLimit < 2 ^ 57 ∧
      ∃ closed report,
        Checked.handle { settings := .ofConfig c } Outlet.accepting.sink .free store [] script = .ok (closed, report) ∧
        closed.phase = .closed ∧ report.result = .ok (.committed true 3) := by
  intro c new script store
  have hnew : Store.ofConfig c = .ok new := rfl
  have hroom : Checked.HasRoom store script := by decide
  have hchunk : c.chunk < 2 ^ 63 := by decide
  have hlimit : c.commandLimit < 2 ^ 57 := by decide
  obtain ⟨-, -, hrun⟩ := breaks_off_where_chunk_too_large hnew [.insert [10], .insert [99, 10]] Outlet.accepting.sink []
    .free .free script hroom
  obtain ⟨closed, report, hmeant, hchecked⟩ := hrun hchunk hlimit
  rw [handle_eq hchunk] at hmeant
  cases hmeant
  exact ⟨hnew, hroom, hchunk, hlimit, _, _, hchecked, rfl, by decide⟩

/-- A configuration that is accepted, with a chunk size that no allocation holds: the session breaks off. -/
theorem accepted_chunk_breaks_off :
    let c : Config := { capacity := 2, chunk := 2 ^ 63 }
    let store : Store := { log := Ring.empty 2, patience := some 10000000, draftLimit := some 16777216 }
    let session : Session := { settings := .ofConfig c }
    let script : List Event := [.arrival (.bytes [97, 10])]
    c.validate = .ok () ∧ Store.ofConfig c = .ok store ∧
      session.handle Outlet.accepting.sink .free store [] script = .error .bufferTooLarge ∧
      Checked.handle session Outlet.accepting.sink .free store [] script = .error .tooLarge := by
  intro c store session script
  refine ⟨rfl, rfl, ?_, Checked.handle_of_large (Nat.le_refl _) _ _ _ _ _ _⟩
  have hbuffer : ¬ session.settings.buffer ≤ allocationLimit := by decide
  unfold handle
  exact if_neg hbuffer

end Session

end LineRing
