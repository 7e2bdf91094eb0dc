/-
What a session is after one read, and what it does under the lock. The stages that reads lead to are sound: a draft is
not ended and within its limit, and an entry to keep is an ended command that is no directive. Settling changes the
store only to insert such an entry.
-/
import LineRing.Directive.Lemmas
import LineRing.Ring.Lemmas
import LineRing.Session

namespace LineRing

namespace Session

/-! ## Decisions -/

theorem ofCommand_eq_keep_iff {command e : Entry} :
    Decision.ofCommand command = .keep e ↔ e = command ∧ Directive.read? command = none := by
  rw [← Request.ofCommand_eq_keep_iff]
  unfold Decision.ofCommand
  rcases Request.ofCommand command with fault | (d | content)
  · simp
  · simp
  · simp

theorem ofCommand_eq_seek_iff {command : Entry} {d : Directive} :
    Decision.ofCommand command = .seek d ↔ Directive.read? command = some (.ok d) := by
  rw [← Request.ofCommand_eq_seek_iff]
  unfold Decision.ofCommand
  rcases Request.ofCommand command with fault | (d' | content)
  · simp
  · simp
  · simp

theorem atEnd_eq_seek_iff {draft : Draft} {d : Directive} :
    Decision.atEnd draft = .seek d ↔ Directive.read? draft.bytes = some (.ok d) := by
  unfold Decision.atEnd
  rcases Directive.read? draft.bytes with _ | (fault | d')
  · simp
  · simp
  · simp

theorem atEnd_ne_keep (draft : Draft) (e : Entry) : Decision.atEnd draft ≠ .keep e := by
  unfold Decision.atEnd
  rcases Directive.read? draft.bytes with _ | (fault | d)
  · simp
  · simp
  · simp

/-! ## Stages -/

/-- What holds of every stage that reads lead to. -/
def Stage.Sound (limit : Nat) : Stage → Prop
  | .receiving draft => draft.limit = some limit ∧ draft.bytes.length ≤ limit ∧ draft.isComplete = false
  | .decided (.keep e) => e.getLast? = some newline ∧ Directive.read? e = none ∧ e.length ≤ limit
  | .decided (.close result) =>
    (∃ failure, result = .error failure) ∨ ∃ discarded, result = .ok (.disconnected discarded)
  | .decided (.seek _) => True

/-- The bytes of the command that a session is at; none where it will keep no command. -/
def Stage.pending? : Stage → Option Bytes
  | .receiving draft => some draft.bytes
  | .decided (.keep e) => some e
  | .decided _ => none

theorem sound_ofCommand {limit : Nat} {command : Entry} (hlast : command.getLast? = some newline)
    (hle : command.length ≤ limit) : (Stage.decided (.ofCommand command)).Sound limit := by
  unfold Decision.ofCommand Request.ofCommand
  rcases hr : Directive.read? command with _ | (fault | d)
  · exact ⟨hlast, hr, hle⟩
  · exact Or.inl ⟨_, rfl⟩
  · trivial

theorem sound_atEnd (limit : Nat) (draft : Draft) : (Stage.decided (.atEnd draft)).Sound limit := by
  unfold Decision.atEnd
  rcases Directive.read? draft.bytes with _ | (fault | d)
  · exact Or.inr ⟨_, rfl⟩
  · exact Or.inl ⟨_, rfl⟩
  · trivial

/-! ## One read -/

/-- The bytes of one read outgrow the limit, join the draft, or end the command. -/
theorem accept_cases (draft : Draft) (piece : Bytes) :
    (∃ failure, draft.append piece = .error failure ∧ accept draft piece = .decided (.close (.error failure))) ∨
    ((∀ limit ∈ draft.limit, draft.bytes.length + piece.length ≤ limit) ∧
      ((draft.bytes ++ piece).getLast? ≠ some newline ∧
        accept draft piece = .receiving { draft with bytes := draft.bytes ++ piece } ∨
      (draft.bytes ++ piece).getLast? = some newline ∧
        accept draft piece = .decided (.ofCommand (draft.bytes ++ piece)))) := by
  unfold accept
  cases happ : draft.append piece with
  | error failure => exact Or.inl ⟨failure, rfl, rfl⟩
  | ok d =>
    obtain ⟨hlimit, rfl⟩ := Draft.append_eq_ok_iff.1 happ
    refine Or.inr ⟨hlimit, ?_⟩
    cases hc : Draft.isComplete { draft with bytes := draft.bytes ++ piece } with
    | true => exact Or.inr ⟨beq_iff_eq.1 hc, by simp only [Draft.take_of_isComplete hc]⟩
    | false => exact Or.inl ⟨beq_eq_false_iff_ne.1 hc, by simp only [Draft.take_of_not_isComplete hc]⟩

theorem sound_accept {limit : Nat} {draft : Draft} (hl : draft.limit = some limit) (piece : Bytes) :
    (accept draft piece).Sound limit := by
  rcases accept_cases draft piece with ⟨failure, -, h⟩ | ⟨hlimit, h⟩
  · rw [h]; exact Or.inl ⟨failure, rfl⟩
  · have hle : (draft.bytes ++ piece).length ≤ limit := by
      rw [List.length_append]; exact hlimit limit hl
    rcases h with ⟨hlast, h⟩ | ⟨hlast, h⟩
    · rw [h]; exact ⟨hl, hle, beq_eq_false_iff_ne.2 hlast⟩
    · rw [h]; exact sound_ofCommand hlast hle

theorem sound_receive {limit : Nat} {draft : Draft} (h : (Stage.receiving draft).Sound limit) (a : Arrival) :
    (receive draft a).Sound limit := by
  cases a with
  | bytes piece =>
    cases piece with
    | nil => exact sound_atEnd limit draft
    | cons b rest => exact sound_accept h.1 (b :: rest)
  | fault fault =>
    unfold receive
    dsimp only
    split
    · exact h
    · exact Or.inl ⟨_, rfl⟩

/-- What a session has of its command after one more read: what it had, and what the read brought. -/
theorem pending?_receive {draft : Draft} {a : Arrival} {b : Bytes} (h : (receive draft a).pending? = some b) :
    b = match a with
      | .bytes piece => draft.bytes ++ piece
      | .fault _ => draft.bytes := by
  cases a with
  | bytes piece =>
    cases piece with
    | nil =>
      change (Stage.decided (.atEnd draft)).pending? = some b at h
      cases hd : Decision.atEnd draft with
      | keep e => exact absurd hd (atEnd_ne_keep draft e)
      | seek d => rw [hd] at h; cases h
      | close result => rw [hd] at h; cases h
    | cons c rest =>
      change (accept draft (c :: rest)).pending? = some b at h
      rcases accept_cases draft (c :: rest) with ⟨failure, -, heq⟩ | ⟨-, ⟨-, heq⟩ | ⟨-, heq⟩⟩
      · rw [heq] at h; cases h
      · rw [heq] at h; cases h; rfl
      · rw [heq] at h
        cases hd : Decision.ofCommand (draft.bytes ++ c :: rest) with
        | keep e =>
          rw [hd] at h; cases h
          exact (ofCommand_eq_keep_iff.1 hd).1
        | seek d => rw [hd] at h; cases h
        | close result => rw [hd] at h; cases h
  | fault fault =>
    unfold receive at h
    dsimp only at h
    split at h
    · cases h; rfl
    · cases h

/-! ## Settling -/

section Settling

variable {σ : Type} (sink : Sink σ) (chunk : Nat) {lock : Lock} {store : Store} (s : σ)

/-- The entry that settling inserts, if it inserts one. -/
def kept? (store : Store) (lock : Lock) : Decision → Option Entry
  | .keep e =>
    match store.acquire lock with
    | .ok () => some e
    | .error _ => none
  | _ => none

theorem kept?_eq_some_iff {decision : Decision} {e : Entry} :
    kept? store lock decision = some e ↔ decision = .keep e ∧ store.acquire lock = .ok () := by
  cases decision with
  | keep e' => cases hl : store.acquire lock <;> simp [kept?, hl]
  | seek d => simp [kept?]
  | close result => simp [kept?]

theorem settle_keep {e : Entry} (h : store.acquire lock = .ok ()) :
    settle sink chunk lock store s (.keep e) =
      ((store.insert e).1, ((store.insert e).1.log.stream 0 chunk sink s).1,
        ((store.insert e).1.log.stream 0 chunk sink s).2.map (.committed (store.insert e).2.isSome)) := by
  unfold settle; rw [h]

theorem settle_seek {d : Directive} {offset : Nat} (h : store.acquire lock = .ok ())
    (ho : store.log.offsetOf d.address = .ok offset) :
    settle sink chunk lock store s (.seek d) =
      (store, (store.log.stream offset chunk sink s).1,
        (store.log.stream offset chunk sink s).2.map (.sought offset)) := by
  simp only [settle, h, ho]

theorem settle_seek_of_nowhere {d : Directive} {failure : Failure} (h : store.acquire lock = .ok ())
    (ho : store.log.offsetOf d.address = .error failure) :
    settle sink chunk lock store s (.seek d) = (store, s, .error failure) := by
  simp only [settle, h, ho]

/-- Settling closes or fails, and then it has done nothing; or it has the lock, and then it inserts an entry and sends
the whole log, or finds a place and sends the log from there on. -/
theorem settle_cases (lock : Lock) (store : Store) (decision : Decision) :
    (∃ result, (decision = .close result ∨ ∃ failure, result = .error failure) ∧ kept? store lock decision = none ∧
      settle sink chunk lock store s decision = (store, s, result)) ∨
    (∃ e, decision = .keep e ∧ store.acquire lock = .ok () ∧
      settle sink chunk lock store s decision =
        ((store.insert e).1, ((store.insert e).1.log.stream 0 chunk sink s).1,
          ((store.insert e).1.log.stream 0 chunk sink s).2.map (.committed (store.insert e).2.isSome))) ∨
    (∃ d offset, decision = .seek d ∧ store.acquire lock = .ok () ∧ store.log.offsetOf d.address = .ok offset ∧
      settle sink chunk lock store s decision =
        (store, (store.log.stream offset chunk sink s).1,
          (store.log.stream offset chunk sink s).2.map (.sought offset))) := by
  cases decision with
  | close result => exact Or.inl ⟨result, Or.inl rfl, rfl, rfl⟩
  | keep e =>
    cases hl : store.acquire lock with
    | error failure =>
      exact Or.inl ⟨.error failure, Or.inr ⟨failure, rfl⟩, by simp only [kept?, hl], by simp only [settle, hl]⟩
    | ok u => exact Or.inr (Or.inl ⟨e, rfl, rfl, settle_keep _ _ _ hl⟩)
  | seek d =>
    cases hl : store.acquire lock with
    | error failure => exact Or.inl ⟨.error failure, Or.inr ⟨failure, rfl⟩, rfl, by simp only [settle, hl]⟩
    | ok u =>
      cases ho : store.log.offsetOf d.address with
      | error failure => exact Or.inl ⟨.error failure, Or.inr ⟨failure, rfl⟩, rfl, settle_seek_of_nowhere _ _ _ hl ho⟩
      | ok offset => exact Or.inr (Or.inr ⟨d, offset, rfl, rfl, ho, settle_seek _ _ _ hl ho⟩)

/-- Settling inserts an entry that is to be kept, if the lock is had, and changes the store in no other way. -/
theorem settle_fst (decision : Decision) : (settle sink chunk lock store s decision).1 =
    (kept? store lock decision).elim store fun e => (store.insert e).1 := by
  rcases settle_cases sink chunk s lock store decision with
    ⟨result, -, hk, h⟩ | ⟨e, rfl, hl, h⟩ | ⟨d, offset, rfl, -, -, h⟩
  · rw [h, hk]; rfl
  · rw [h, kept?_eq_some_iff.2 ⟨rfl, hl⟩]; rfl
  · rw [h]; rfl

/-- A result that reports a commit comes of an entry that was inserted and of a log that was sent whole. -/
theorem settle_eq_committed {limit : Nat} {decision : Decision} (hs : (Stage.decided decision).Sound limit)
    {evicted : Bool} {sent : Nat}
    (h : (settle sink chunk lock store s decision).2.2 = .ok (.committed evicted sent)) :
    ∃ e, decision = .keep e ∧ store.acquire lock = .ok () ∧ evicted = (store.insert e).2.isSome ∧
      ((store.insert e).1.log.stream 0 chunk sink s).2 = .ok sent := by
  rcases settle_cases sink chunk s lock store decision with
    ⟨result, hresult, -, heq⟩ | ⟨e, rfl, hl, heq⟩ | ⟨d, offset, rfl, -, -, heq⟩
  · obtain rfl : result = .ok (.committed evicted sent) := by rw [heq] at h; exact h
    rcases hresult with rfl | ⟨failure, hf⟩
    · rcases hs with ⟨failure, hf⟩ | ⟨discarded, hd⟩
      · cases hf
      · cases hd
    · cases hf
  · rw [heq] at h
    cases hn : ((store.insert e).1.log.stream 0 chunk sink s).2 with
    | error failure => simp [hn, Except.map] at h
    | ok n =>
      obtain ⟨rfl, rfl⟩ : (store.insert e).2.isSome = evicted ∧ n = sent := by simpa [hn, Except.map] using h
      exact ⟨e, rfl, hl, rfl, hn⟩
  · rw [heq] at h
    cases hn : (store.log.stream offset chunk sink s).2 <;> simp [hn, Except.map] at h

end Settling

end Session

end LineRing
