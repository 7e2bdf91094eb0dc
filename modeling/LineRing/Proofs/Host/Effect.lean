/-
What one move of a run does. It changes the store by committing one entry or by clearing, and in no other way; it
leaves what the other clients have of their commands; what its own client has afterwards, and the entry that it
commits, are made of the bytes that this client was given. Sessions stay sound.
-/
import LineRing.Proofs.Host.Move

namespace LineRing

namespace Host

/-! ## Writes -/

namespace Action

/-- The write that an action makes, with the name of its handle. To write all of no bytes makes none. -/
def write? : Action → Option (ClientId × Bytes)
  | write id data => some (id, data)
  | writeAll id data => if data.isEmpty then none else some (id, data)
  | _ => none

variable {action : Action} {id : ClientId} {data : Bytes}

theorem write?_eq_some (h : action.write? = some (id, data)) :
    action = .write id data ∨ action = .writeAll id data ∧ data ≠ [] := by
  cases action with
  | write other bytes => cases h; exact Or.inl rfl
  | writeAll other bytes =>
    unfold write? at h
    dsimp only at h
    split at h
    · cases h
    · rename_i hne
      cases h
      exact Or.inr ⟨rfl, by simpa using hne⟩
  | _ => cases h

theorem client_of_write? (h : action.write? = some (id, data)) : action.client = .handle id := by
  rcases write?_eq_some h with rfl | ⟨rfl, -⟩ <;> rfl

end Action

namespace Move

variable {m : Move} {id : ClientId} {data : Bytes}

/-- An action that makes a write does to the store and to its handle what `Handle.write` does. -/
theorem write_step {h : Handle} (hw : m.action.write? = some (id, data)) (hh : m.before.handles id = some h) :
    m.after.store = (h.write m.before.store m.lock data).1 ∧
      m.after.handles id = some (h.write m.before.store m.lock data).2.1 ∧
      m.answer.isRefusal = !(h.write m.before.store m.lock data).2.2.isOk ∧ m.offer? = h.ended? data := by
  obtain ⟨host, lock, action⟩ := m
  replace hh : host.handles id = some h := hh
  rcases Action.write?_eq_some hw with rfl | ⟨rfl, hne⟩
  · refine ⟨?_, ?_, isRefusal_withHandle _ _ _ _ hh fun _ => rfl, by simp [offer?, hh]⟩
    · simp only [after, step, withHandle_some _ _ _ _ hh]
    · simp only [after, step, withHandle_some _ _ _ _ hh, setAt, if_true]
  · have hall := h.writeAll_eq hne host.store lock
    have hr : (answer ⟨host, lock, .writeAll id data⟩).isRefusal = !(h.writeAll host.store lock data).2.2.isOk :=
      isRefusal_withHandle _ _ _ _ hh fun _ => rfl
    refine ⟨?_, ?_, hr.trans ?_, by simp [offer?, hne, hh]⟩
    · simp only [after, step, withHandle_some _ _ _ _ hh, hall]
    · simp only [after, step, withHandle_some _ _ _ _ hh, setAt, if_true, hall]
    · rw [hall]
      cases (h.write host.store lock data).2.2 <;> rfl

theorem write_missing (hw : m.action.write? = some (id, data)) (hh : m.before.handles id = none) :
    m.after = m.before ∧ m.offer? = none := by
  obtain ⟨host, lock, action⟩ := m
  replace hh : host.handles id = none := hh
  rcases Action.write?_eq_some hw with rfl | ⟨rfl, -⟩
  · exact ⟨congrArg Prod.fst (withHandle_none _ _ _ _ hh), by simp [offer?, hh]⟩
  · exact ⟨congrArg Prod.fst (withHandle_none _ _ _ _ hh), by simp [offer?, hh]⟩

end Move

/-! ## The store -/

theorem Move.commit?_of_ok {m : Move} (h : m.before.store.acquire m.lock = .ok ()) : m.commit? = m.offer? := by
  unfold commit?; rw [h]

theorem Move.commit?_of_error {m : Move} {failure : Failure} (h : m.before.store.acquire m.lock = .error failure) :
    m.commit? = none := by
  unfold commit?; rw [h]

theorem Move.commit?_of_offer?_eq_none (m : Move) (h : m.offer? = none) : m.commit? = none := by
  unfold commit?
  split
  · exact h
  · rfl

theorem Move.store_after_write {m : Move} {id : ClientId} {data : Bytes} (hw : m.action.write? = some (id, data)) :
    m.after.store = match m.commit? with
      | some e => (m.before.store.insert e).1
      | none => m.before.store := by
  cases hh : m.before.handles id with
  | none =>
    obtain ⟨hafter, hoffer⟩ := write_missing hw hh
    rw [hafter, m.commit?_of_offer?_eq_none hoffer]
  | some h =>
    obtain ⟨hstore, -, -, hoffer⟩ := write_step hw hh
    rw [hstore, Handle.write_fst]
    unfold commit?
    rw [hoffer]
    cases m.before.store.acquire m.lock <;> cases h.ended? data <;> rfl

/-- A move releases all entries, inserts one, or leaves the store as it is. -/
theorem Move.store_after (m : Move) :
    m.after.store =
      if m.action.clears then m.before.store.clear.1
      else match m.commit? with
        | some e => (m.before.store.insert e).1
        | none => m.before.store := by
  obtain ⟨host, lock, action⟩ := m
  cases action with
  | commit e =>
    unfold Move.after Move.commit? Move.offer? step Store.commit
    cases host.store.acquire lock <;> rfl
  | write id data => exact Move.store_after_write rfl
  | writeAll id data =>
    rcases data with _ | ⟨b, rest⟩
    · rw [Move.commit?_of_offer?_eq_none _ rfl]
      exact readHandle_store host id (fun _ => Answer.done) fun h => (h, .ok ())
    · exact Move.store_after_write rfl
  | settle id outlet =>
    unfold Move.after Move.commit? Move.offer? step
    dsimp only
    rcases hs : host.sessions id with _ | ⟨settings, draft | decision⟩
    · cases host.store.acquire lock <;> rfl
    · cases host.store.acquire lock <;> rfl
    · simp only [Session.settle_fst, Session.kept?]
      cases host.store.acquire lock <;> cases decision <;> rfl
  | hear id a =>
    have hcommit : Move.commit? ⟨host, lock, .hear id a⟩ = none := by
      unfold Move.commit?; split <;> rfl
    rw [hcommit]
    unfold Move.after step
    dsimp only
    split <;> rfl
  | snapshot | count | size | clear | openHandle | closeHandle | startSession | abandon =>
    unfold Move.after Move.commit? Move.offer? step
    cases host.store.acquire lock <;> rfl
  | flush | read | readAll | seek | seekTo =>
    unfold Move.commit? Move.offer?
    exact (readHandle_store _ _ _ _).trans (by cases host.store.acquire lock <;> rfl)

namespace Move

variable (m : Move)

/-! ## What others have -/

theorem handles_after_of_ne {id : ClientId} (h : m.action.client ≠ .handle id) :
    m.after.handles id = m.before.handles id := by
  obtain ⟨host, lock, action⟩ := m
  have hne : ∀ other, action.client = .handle other → id ≠ other := by
    rintro other hother rfl; exact h hother
  cases action with
  | openHandle other | closeHandle other => exact if_neg (hne other rfl)
  | write other | writeAll other | flush other | read other | readAll other | seek other | seekTo other =>
    exact withHandle_handles_of_ne _ _ _ _ (hne other rfl)
  | hear | settle =>
    unfold after step
    dsimp only
    split <;> rfl
  | commit | snapshot | count | size | clear | startSession | abandon => rfl

theorem sessions_after_of_ne {id : ClientId} (h : m.action.client ≠ .session id) :
    m.after.sessions id = m.before.sessions id := by
  obtain ⟨host, lock, action⟩ := m
  have hne : ∀ other, action.client = .session other → id ≠ other := by
    rintro other hother rfl; exact h hother
  cases action with
  | startSession other | abandon other => exact if_neg (hne other rfl)
  | hear other | settle other =>
    unfold after step
    dsimp only
    split
    · exact if_neg (hne other rfl)
    · rfl
  | write | writeAll | flush | read | readAll | seek | seekTo =>
    exact congrFun (withHandle_sessions _ _ _ _) id
  | commit | snapshot | count | size | clear | openHandle | closeHandle => rfl

theorem pending?_after_of_ne {client : Client} (h : m.action.client ≠ client) :
    m.after.pending? client = m.before.pending? client := by
  cases client with
  | direct => rfl
  | handle id => simp only [pending?, m.handles_after_of_ne h]
  | session id => simp only [pending?, m.sessions_after_of_ne h]

/-! ## What its own client has -/

theorem carry_of_ne {client : Client} (h : m.action.client ≠ client) (got : Bytes) : m.carry client got = got :=
  if_pos h

theorem carry_self (got : Bytes) :
    m.carry m.action.client got =
      if m.action.begins || m.commit?.isSome then []
      else if m.answer.isRefusal then got
      else got ++ m.action.bytes := by
  unfold carry; rw [if_neg (not_not.2 rfl)]

theorem carry_self_of_begins (h : m.action.begins = true) (got : Bytes) : m.carry m.action.client got = [] := by
  rw [carry_self, h]; rfl

theorem carry_self_of_commit {e : Entry} (h : m.commit? = some e) (got : Bytes) : m.carry m.action.client got = [] := by
  rw [carry_self, h, Option.isSome_some, Bool.or_true]; rfl

theorem carry_self_of_refusal (hb : m.action.begins = false) (hc : m.commit? = none) (hr : m.answer.isRefusal = true)
    (got : Bytes) : m.carry m.action.client got = got := by
  rw [carry_self, hb, hc, hr]; rfl

theorem carry_self_of_done (hb : m.action.begins = false) (hc : m.commit? = none) (hr : m.answer.isRefusal = false)
    (got : Bytes) : m.carry m.action.client got = got ++ m.action.bytes := by
  rw [carry_self, hb, hc, hr]; rfl

theorem carry_self_of_idle (hb : m.action.begins = false) (hc : m.commit? = none) (hd : m.action.bytes = [])
    (got : Bytes) : m.carry m.action.client got = got := by
  cases hr : m.answer.isRefusal with
  | true => exact m.carry_self_of_refusal hb hc hr got
  | false => rw [m.carry_self_of_done hb hc hr, hd, List.append_nil]

/-- A write leaves in the draft what its handle was given since it last committed. -/
theorem draft_write {h : Handle} {data : Bytes} (hb : m.action.begins = false) (ho : m.offer? = h.ended? data)
    (hd : m.action.bytes = data)
    (hr : m.answer.isRefusal = !(h.write m.before.store m.lock data).2.2.isOk) :
    (h.write m.before.store m.lock data).2.1.draft.bytes = m.carry m.action.client h.draft.bytes := by
  rcases h.write_cases m.before.store m.lock data with ⟨f, -, he, hw⟩ | ⟨he, hw⟩ | ⟨e, f, he, hl, hw⟩ | ⟨e, he, hl, hw⟩
  · rw [hw] at hr ⊢
    exact (m.carry_self_of_refusal hb (m.commit?_of_offer?_eq_none (ho.trans he)) hr _).symm
  · rw [hw] at hr ⊢
    rw [m.carry_self_of_done hb (m.commit?_of_offer?_eq_none (ho.trans he)) hr, hd]; rfl
  · rw [hw] at hr ⊢
    exact (m.carry_self_of_refusal hb (commit?_of_error hl) hr _).symm
  · rw [hw]
    exact (m.carry_self_of_commit ((commit?_of_ok hl).trans (ho.trans he)) _).symm

theorem pending?_after_write {id : ClientId} {data b : Bytes} (hw : m.action.write? = some (id, data))
    (h : m.after.pending? (.handle id) = some b) :
    ∃ got, m.before.pending? (.handle id) = some got ∧ b = m.carry (.handle id) got := by
  cases hh : m.before.handles id with
  | none =>
    rw [(write_missing hw hh).1] at h
    simp [pending?, hh] at h
  | some h₀ =>
    obtain ⟨-, hafter, hr, ho⟩ := write_step hw hh
    have hb : b = (h₀.write m.before.store m.lock data).2.1.draft.bytes := by simpa [pending?, hafter] using h.symm
    have hc := Action.client_of_write? hw
    have hbytes : m.action.begins = false ∧ m.action.bytes = data := by
      rcases Action.write?_eq_some hw with ha | ⟨ha, -⟩ <;> rw [ha] <;> exact ⟨rfl, rfl⟩
    refine ⟨h₀.draft.bytes, by simp [pending?, hh], ?_⟩
    rw [hb, ← hc]
    exact m.draft_write hbytes.1 ho hbytes.2 hr

/-- What the client of a move has afterwards: nothing yet, where it begins here, and else what it has been given. -/
theorem pending?_after {b : Bytes} (h : m.after.pending? m.action.client = some b) :
    m.action.begins = true ∧ b = [] ∨
      ∃ got, m.before.pending? m.action.client = some got ∧ b = m.carry m.action.client got := by
  obtain ⟨host, lock, action⟩ := m
  cases action with
  | commit e =>
    refine Or.inr ⟨[], rfl, ?_⟩
    cases h
    cases hl : host.store.acquire lock with
    | ok u =>
      have hc : commit? ⟨host, lock, .commit e⟩ = some e := commit?_of_ok hl
      exact (carry_self_of_commit _ hc _).symm
    | error failure =>
      refine (carry_self_of_refusal _ rfl (commit?_of_error hl) ?_ _).symm
      simp only [answer, step, Store.commit, hl]; rfl
  | snapshot | count | size | clear =>
    refine Or.inr ⟨[], rfl, ?_⟩
    cases h
    exact (carry_self_of_idle _ rfl (commit?_of_offer?_eq_none _ rfl) rfl _).symm
  | openHandle id | startSession id =>
    refine Or.inl ⟨rfl, ?_⟩
    simpa [pending?, after, step, setAt, Action.client, Store.openHandle, Session.Stage.pending?] using h.symm
  | closeHandle id | abandon id => simp [pending?, after, step, setAt, Action.client] at h
  | flush | read | readAll | seek | seekTo =>
    refine Or.inr ⟨b, ?_, (carry_self_of_idle _ rfl (commit?_of_offer?_eq_none _ rfl) rfl _).symm⟩
    rw [← h]
    exact (readHandle_pending? _ _ _ (by simp) _).symm
  | write id data => exact Or.inr (pending?_after_write _ rfl h)
  | writeAll id data =>
    rcases data with _ | ⟨c, rest⟩
    · refine Or.inr ⟨b, ?_, (carry_self_of_idle _ rfl (commit?_of_offer?_eq_none _ rfl) rfl _).symm⟩
      rw [← h]
      have hidle : (host.readHandle id (fun _ => Answer.done) fun h => (h, .ok ())).1.pending? (.handle id) = _ :=
        readHandle_pending? _ _ _ (fun _ => rfl) _
      exact hidle.symm
    · exact Or.inr (pending?_after_write _ rfl h)
  | hear id a =>
    refine Or.inr ?_
    have hc : commit? ⟨host, lock, .hear id a⟩ = none := commit?_of_offer?_eq_none _ rfl
    rcases hs : host.sessions id with _ | ⟨settings, draft | decision⟩
    · simp [pending?, after, step, Action.client, hs] at h
    · refine ⟨draft.bytes, by simp [pending?, Action.client, hs, Session.Stage.pending?], ?_⟩
      have hdone : answer ⟨host, lock, .hear id a⟩ = .done := by simp [answer, step, hs]
      rw [carry_self_of_done _ rfl hc (by rw [hdone]; rfl)]
      have hrec : (Session.receive draft a).pending? = some b := by
        simpa [pending?, after, step, Action.client, hs, setAt] using h
      rw [Session.pending?_receive hrec]
      cases a <;> simp [Action.bytes]
    · refine ⟨b, ?_, (carry_self_of_refusal _ rfl hc ?_ _).symm⟩
      · simpa [pending?, after, step, Action.client, hs] using h
      · simp [answer, step, hs, Answer.isRefusal]
  | settle id outlet =>
    refine Or.inr ?_
    rcases hs : host.sessions id with _ | ⟨settings, draft | decision⟩
    · simp [pending?, after, step, Action.client, hs] at h
    · have hc : commit? ⟨host, lock, .settle id outlet⟩ = none := commit?_of_offer?_eq_none _ (by simp [offer?, hs])
      refine ⟨b, ?_, (carry_self_of_idle _ rfl hc rfl _).symm⟩
      simpa [pending?, after, step, Action.client, hs] using h
    · simp [pending?, after, step, Action.client, hs, setAt] at h

theorem commit?_eq_some {e : Entry} (h : m.commit? = some e) :
    m.before.store.acquire m.lock = .ok () ∧ m.offer? = some e := by
  unfold commit? at h
  split at h
  · rename_i hl; exact ⟨hl, h⟩
  · cases h

/-- An entry is offered by one that has it whole, by a write that ends it, or by a session that has decided to keep
it. -/
theorem offer?_cases {e : Entry} (h : m.offer? = some e) :
    m.action = .commit e ∨
    (∃ id h₀, m.action.client = .handle id ∧ m.before.handles id = some h₀ ∧ h₀.ended? m.action.bytes = some e) ∨
    (∃ id settings, m.action.client = .session id ∧ m.action.bytes = [] ∧
      m.before.sessions id = some ⟨settings, .decided (.keep e)⟩) := by
  obtain ⟨host, lock, action⟩ := m
  unfold offer? at h
  cases action with
  | commit e' => cases h; exact Or.inl rfl
  | write id data =>
    obtain ⟨h₀, hh, he⟩ := Option.bind_eq_some_iff.1 h
    exact Or.inr (Or.inl ⟨id, h₀, rfl, hh, he⟩)
  | writeAll id data =>
    dsimp only at h
    split at h
    · cases h
    · obtain ⟨h₀, hh, he⟩ := Option.bind_eq_some_iff.1 h
      exact Or.inr (Or.inl ⟨id, h₀, rfl, hh, he⟩)
  | settle id outlet =>
    dsimp only at h
    split at h
    · rename_i settings _ hs
      cases h
      exact Or.inr (Or.inr ⟨id, settings, rfl, rfl, hs⟩)
    · cases h
  | _ => cases h

/-- The entry that is offered is what its client was given of it before and now. -/
theorem offer?_eq_some {e : Entry} (h : m.offer? = some e) :
    ∃ got, m.before.pending? m.action.client = some got ∧ e = got ++ m.action.bytes := by
  rcases m.offer?_cases h with ha | ⟨id, h₀, hclient, hh, he⟩ | ⟨id, settings, hclient, hbytes, hs⟩
  · rw [ha]
    exact ⟨[], rfl, rfl⟩
  · rw [hclient]
    exact ⟨h₀.draft.bytes, by simp [pending?, hh], (Handle.ended?_eq_some he).1⟩
  · rw [hclient, hbytes]
    exact ⟨e, by simp [pending?, hs, Session.Stage.pending?], (List.append_nil e).symm⟩

end Move

end Host

end LineRing
