/-
The books of a handle: what was written through it is what it has committed and what it still holds back. Main
statement: in any run of a host, whatever other clients do and whichever waits for the lock fail, the writes of a handle
that were done are those of the commands that it committed, command by command and in order, and those that it has
pending (`written_eq_committed_append_pending`).

The books are kept as a `Ledger`, to which every write that is done adds one line. The proof rests on a fact about
drafts at rest: what is pending never ends in a newline, and so a write commits just if its own last byte is one.
-/
import LineRing.Proofs.Host.Effect

namespace LineRing

/-! ## Ledgers -/

/-- Writes, by the commands that they make up: those of each command that was ended, and those of the command that is
under way. Of the writes of a command, only the one that ends it has a newline as its last byte. -/
structure Ledger where
  ended : List (List Bytes) := []
  underWay : List Bytes := []
  ended_spec : ∀ group ∈ ended, ∃ front last, group = front ++ [last] ∧ last.getLast? = some newline ∧
    ∀ data ∈ front, data.getLast? ≠ some newline := by simp
  underWay_spec : ∀ data ∈ underWay, data.getLast? ≠ some newline := by simp

namespace Ledger

variable (l : Ledger) (data : Bytes)

/-- All writes, in order. -/
def writes : List Bytes := l.ended.flatten ++ l.underWay

/-- The commands that were ended, in order. -/
def entries : List Entry := l.ended.map List.flatten

/-- What was written of the command that is under way. -/
def pending : Bytes := l.underWay.flatten

/-- One more write, which ends no command. -/
def extend (h : data.getLast? ≠ some newline) : Ledger where
  ended := l.ended
  underWay := l.underWay ++ [data]
  ended_spec := l.ended_spec
  underWay_spec := List.forall_mem_append.2 ⟨l.underWay_spec, List.forall_mem_singleton.2 h⟩

/-- One more write, which ends the command that was under way. -/
def finish (h : data.getLast? = some newline) : Ledger where
  ended := l.ended ++ [l.underWay ++ [data]]
  ended_spec := List.forall_mem_append.2
    ⟨l.ended_spec, List.forall_mem_singleton.2 ⟨l.underWay, data, rfl, h, l.underWay_spec⟩⟩

theorem flatten_writes : l.writes.flatten = l.entries.flatten ++ l.pending := by
  rw [writes, List.flatten_append, List.flatten_flatten]; rfl

theorem getLast?_flatten_ne : ∀ {writes : List Bytes}, (∀ data ∈ writes, data.getLast? ≠ some newline) →
    writes.flatten.getLast? ≠ some newline
  | [], _ => by simp
  | data :: rest, h => by
    obtain ⟨hdata, hrest⟩ := List.forall_mem_cons.1 h
    have ih := getLast?_flatten_ne hrest
    rw [List.flatten_cons, List.getLast?_append]
    cases hlast : rest.flatten.getLast? with
    | none => simpa using hdata
    | some b =>
      rw [hlast] at ih
      simpa using ih

theorem getLast?_pending : l.pending.getLast? ≠ some newline := getLast?_flatten_ne l.underWay_spec

@[simp] theorem writes_extend (h : data.getLast? ≠ some newline) : (l.extend data h).writes = l.writes ++ [data] := by
  simp [writes, extend]

@[simp] theorem entries_extend (h : data.getLast? ≠ some newline) : (l.extend data h).entries = l.entries := rfl

@[simp] theorem pending_extend (h : data.getLast? ≠ some newline) : (l.extend data h).pending = l.pending ++ data := by
  simp [pending, extend]

@[simp] theorem writes_finish (h : data.getLast? = some newline) : (l.finish data h).writes = l.writes ++ [data] := by
  simp [writes, finish]

@[simp] theorem entries_finish (h : data.getLast? = some newline) :
    (l.finish data h).entries = l.entries ++ [l.pending ++ data] := by
  simp [entries, finish, pending]

end Ledger

namespace Host

/-! ## The writes of a handle -/

namespace Action

/-- Whether a handle of this name is opened or closed. -/
def opensOrCloses (id : ClientId) : Action → Bool
  | openHandle other | closeHandle other => other == id
  | _ => false

end Action

namespace Move

/-- The data of a write of a handle that was done. -/
def written? (m : Move) (id : ClientId) : Option Bytes :=
  match m.action.write? with
  | some (other, data) => if other = id ∧ m.answer.isRefusal = false then some data else none
  | none => none

/-- The entry that a move commits for a handle. -/
def committed? (m : Move) (id : ClientId) : Option Entry :=
  if m.action.client = .handle id then m.commit? else none

end Move

/-- The data of the writes of a handle that were done, in order. -/
def written (id : ClientId) (past : List Move) : List Bytes := past.filterMap (·.written? id)

/-- The entries that a handle has committed, in order. -/
def committedBy (id : ClientId) (past : List Move) : List Entry := past.filterMap (·.committed? id)

/-! ## One move -/

namespace Move

variable {m : Move} {id : ClientId} {h : Handle}

theorem idle_step (hw : m.action.write? = none) (hc : m.action.client = .handle id)
    (ho : m.action.opensOrCloses id = false) (hh : m.before.handles id = some h) :
    (∃ h', m.after.handles id = some h' ∧ h'.draft = h.draft) ∧ m.offer? = none := by
  obtain ⟨host, lock, action⟩ := m
  cases action with
  | openHandle other | closeHandle other =>
    obtain rfl : other = id := by simpa [Action.client] using hc
    simp [Action.opensOrCloses] at ho
  | write other bytes => cases hw
  | writeAll other bytes =>
    obtain rfl : other = id := by simpa [Action.client] using hc
    obtain rfl : bytes = [] := by simpa [Action.write?] using hw
    exact ⟨⟨h, by simp [after, step, withHandle_some _ _ _ _ hh, setAt, Handle.writeAll], rfl⟩, rfl⟩
  | flush other | read other | readAll other | seek other | seekTo other =>
    obtain rfl : other = id := by simpa [Action.client] using hc
    refine ⟨⟨_, by simp only [after, step, readHandle, withHandle_some _ _ _ _ hh, setAt, if_true]; rfl, ?_⟩, rfl⟩
    simp
  | _ => cases hc

end Move

/-! ## The books of a handle -/

/-- The books of a handle that was opened with this limit and then made these moves, among those of others: what it has
written and committed is in one ledger with what it has pending, which is within the limit. -/
def Balanced (id : ClientId) (limit : Option Nat) (past : List Move) (host : Host) : Prop :=
  ∃ (h : Handle) (ledger : Ledger), host.handles id = some h ∧ h.draft.limit = limit ∧
    (∀ n ∈ limit, h.draft.bytes.length ≤ n) ∧ written id past = ledger.writes ∧
    committedBy id past = ledger.entries ∧ h.draft.bytes = ledger.pending

theorem balanced_open (host : Host) (lock : Lock) (id : ClientId) :
    Balanced id host.store.draftLimit [] (host.step lock (.openHandle id)).1 :=
  ⟨host.store.openHandle, {}, if_pos rfl, rfl, fun _ _ => Nat.zero_le _, rfl, rfl, rfl⟩

/-- What a move does to the books of a handle: nothing, or one more write, which commits just if it ends in a
newline. -/
theorem Move.books_cases {m : Move} {id : ClientId} {h : Handle} (hh : m.before.handles id = some h)
    (hopen : h.draft.bytes.getLast? ≠ some newline) (ho : m.action.opensOrCloses id = false) :
    ∃ h', m.after.handles id = some h' ∧ h'.draft.limit = h.draft.limit ∧
      (m.written? id = none ∧ m.committed? id = none ∧ h'.draft = h.draft ∨
      ∃ data, m.written? id = some data ∧
        (data.getLast? ≠ some newline ∧ m.committed? id = none ∧ h'.draft.bytes = h.draft.bytes ++ data ∧
            (∀ n ∈ h.draft.limit, h'.draft.bytes.length ≤ n) ∨
          data.getLast? = some newline ∧ m.committed? id = some (h.draft.bytes ++ data) ∧ h'.draft.bytes = [])) := by
  by_cases hc : m.action.client = .handle id
  · have hcommitted : m.committed? id = m.commit? := if_pos hc
    rw [hcommitted]
    cases hw : m.action.write? with
    | none =>
      obtain ⟨⟨h', hh', hdraft⟩, hoffer⟩ := idle_step hw hc ho hh
      refine ⟨h', hh', by rw [hdraft], Or.inl ⟨?_, m.commit?_of_offer?_eq_none hoffer, hdraft⟩⟩
      simp only [written?, hw]
    | some x =>
      obtain ⟨other, data⟩ := x
      obtain rfl : other = id := by simpa using (Action.client_of_write? hw).symm.trans hc
      obtain ⟨-, hafter, hrefusal, hoffer⟩ := write_step hw hh
      have hwritten : m.written? other = if m.answer.isRefusal then none else some data := by
        simp only [written?, hw]
        cases m.answer.isRefusal <;> simp
      rw [hwritten]
      rcases h.write_cases_of_open hopen m.before.store m.lock data with
        ⟨failure, hno, heq⟩ | ⟨hlast, he, hlimit, heq⟩ | ⟨hlast, he, hl, heq⟩
      · rw [heq] at hafter hrefusal
        have hcommit : m.commit? = none := by
          rcases hno with he | hl
          · exact m.commit?_of_offer?_eq_none (hoffer.trans he)
          · exact commit?_of_error hl
        exact ⟨h, hafter, rfl, Or.inl ⟨by rw [hrefusal]; rfl, hcommit, rfl⟩⟩
      · rw [heq] at hafter hrefusal
        refine ⟨_, hafter, rfl, Or.inr ⟨data, by rw [hrefusal]; rfl, Or.inl ⟨hlast, ?_, rfl, hlimit⟩⟩⟩
        exact m.commit?_of_offer?_eq_none (hoffer.trans he)
      · rw [heq] at hafter hrefusal
        refine ⟨_, hafter, rfl, Or.inr ⟨data, by rw [hrefusal]; rfl, Or.inr ⟨hlast, ?_, rfl⟩⟩⟩
        rw [commit?_of_ok hl, hoffer, he]
  -- the move of another client
  · refine ⟨h, (m.handles_after_of_ne hc).trans hh, rfl, Or.inl ⟨?_, if_neg hc, rfl⟩⟩
    unfold written?
    split
    · rename_i other data hw
      refine if_neg ?_
      rintro ⟨rfl, -⟩
      exact hc (Action.client_of_write? hw)
    · rfl

theorem balanced_after {id : ClientId} {limit : Option Nat} {past : List Move} {m : Move}
    (ho : m.action.opensOrCloses id = false) (hb : Balanced id limit past m.before) :
    Balanced id limit (past ++ [m]) m.after := by
  obtain ⟨h, ledger, hh, hlimit, hle, hwritten, hcommitted, hpending⟩ := hb
  have hopen : h.draft.bytes.getLast? ≠ some newline := by
    rw [hpending]; exact ledger.getLast?_pending
  obtain ⟨h', hh', hlimit', hbooks⟩ := Move.books_cases hh hopen ho
  unfold Balanced written committedBy
  rw [filterMap_concat, filterMap_concat]
  rcases hbooks with ⟨hw, hc, hdraft⟩ | ⟨data, hw, ⟨hlast, hc, hbytes, hle'⟩ | ⟨hlast, hc, hbytes⟩⟩
  · refine ⟨h', ledger, hh', hlimit'.trans hlimit, by rw [hdraft]; exact hle, ?_, ?_, by rw [hdraft, hpending]⟩
    · rw [hw, ← hwritten]; simp [written]
    · rw [hc, ← hcommitted]; simp [committedBy]
  · refine ⟨h', ledger.extend data hlast, hh', hlimit'.trans hlimit, hlimit ▸ hle', ?_, ?_, ?_⟩
    · rw [hw, Ledger.writes_extend, ← hwritten]; rfl
    · rw [hc, Ledger.entries_extend, ← hcommitted]; simp [committedBy]
    · rw [hbytes, hpending, Ledger.pending_extend]
  · refine ⟨h', ledger.finish data hlast, hh', hlimit'.trans hlimit, ?_, ?_, ?_, hbytes⟩
    · rw [hbytes]; exact fun _ _ => Nat.zero_le _
    · rw [hw, Ledger.writes_finish, ← hwritten]; rfl
    · rw [hc, Ledger.entries_finish, ← hcommitted, ← hpending]; rfl

theorem balanced_run (host : Host) (lock : Lock) (id : ClientId) {life : List (Lock × Action)}
    (hlife : ∀ x ∈ life, x.2.opensOrCloses id = false) :
    Balanced id host.store.draftLimit ((host.step lock (.openHandle id)).1.moves life)
      ((host.step lock (.openHandle id)).1.run life).1 :=
  run_induction_of (Q := fun action => action.opensOrCloses id = false) (fun _ _ ho hb => balanced_after ho hb) life
    hlife (balanced_open host lock id)

/-! ## The main statement -/

theorem Move.answer_write {m : Move} {id : ClientId} {h : Handle} {data : Bytes} (ha : m.action = .write id data)
    (hh : m.before.handles id = some h) :
    m.answer = .number data.length ∨ ∃ failure, m.answer = .failed failure := by
  obtain ⟨host, lock, action⟩ := m
  obtain rfl : action = .write id data := ha
  have hans : answer ⟨host, lock, .write id data⟩ = .of .number (h.write host.store lock data).2.2 := by
    simp only [answer, step, withHandle_some _ _ _ _ hh]
  rw [hans]
  rcases h.write_cases host.store lock data with ⟨f, -, -, hw⟩ | ⟨-, hw⟩ | ⟨e, f, -, -, hw⟩ | ⟨e, -, -, hw⟩
  · rw [hw]; exact Or.inr ⟨f, rfl⟩
  · rw [hw]; exact Or.inl rfl
  · rw [hw]; exact Or.inr ⟨f, rfl⟩
  · rw [hw]; exact Or.inl rfl

/-- The books of a handle balance. Take any host on which a handle is opened, and any run from there on in which it
stays open, whatever other clients do and however the lock is found. The writes of the handle that were done, joined,
are the entries that it has committed and then the bytes that it has pending; each of these entries is made of whole
writes, one after the other, of which only the last ends in a newline, and the pending bytes are made of those after
them. The pending bytes never end in a newline, and are within the limit. A write is done with all its data or fails,
and the moves of the handle that commit are just the writes that are done and end in a newline; all others leave the
store as it is. -/
theorem written_eq_committed_append_pending (host : Host) (lock : Lock) (id : ClientId) {life : List (Lock × Action)}
    (hlife : ∀ x ∈ life, x.2.opensOrCloses id = false) :
    let opened := (host.step lock (.openHandle id)).1
    let past := opened.moves life
    (∃ (h : Handle) (ledger : Ledger), (opened.run life).1.handles id = some h ∧
      (written id past).flatten = (committedBy id past).flatten ++ h.draft.bytes ∧
      written id past = ledger.writes ∧ committedBy id past = ledger.entries ∧ h.draft.bytes = ledger.pending ∧
      h.draft.bytes.getLast? ≠ some newline ∧ ∀ n ∈ host.store.draftLimit, h.draft.bytes.length ≤ n) ∧
    ∀ m ∈ past, m.action.client = .handle id →
      (∀ data, m.action = .write id data →
        m.answer = .number data.length ∨ ∃ failure, m.answer = .failed failure) ∧
      (m.commit?.isSome ↔ ∃ data, m.written? id = some data ∧ data.getLast? = some newline) ∧
      m.after.store = m.commit?.elim m.before.store fun e => (m.before.store.insert e).1 := by
  intro opened past
  constructor
  · obtain ⟨h, ledger, hh, -, hle, hwritten, hcommitted, hpending⟩ := balanced_run host lock id hlife
    refine ⟨h, ledger, hh, ?_, hwritten, hcommitted, hpending, ?_, hle⟩
    · exact (congrArg List.flatten hwritten).trans (by rw [ledger.flatten_writes, ← hcommitted, ← hpending])
    · rw [hpending]; exact ledger.getLast?_pending
  · intro m hm hc
    obtain ⟨before, after, hpast⟩ := List.append_of_mem hm
    obtain ⟨a, b, rfl, -, hbefore, -⟩ := exists_of_moves_eq life hpast
    obtain ⟨ha, hb⟩ := List.forall_mem_append.1 hlife
    -- the books balance when the move is made
    obtain ⟨h, ledger, hh, -, -, -, -, hpending⟩ := balanced_run host lock id ha
    have hopen : h.draft.bytes.getLast? ≠ some newline := by
      rw [hpending]; exact ledger.getLast?_pending
    rw [← hbefore] at hh
    refine ⟨fun data haction => Move.answer_write haction hh, ?_, ?_⟩
    · have hcommitted : m.committed? id = m.commit? := if_pos hc
      obtain ⟨h', -, -, ⟨hw, hnone, -⟩ | ⟨data, hw, ⟨hlast, hnone, -⟩ | ⟨hlast, hsome, -⟩⟩⟩ :=
        Move.books_cases hh hopen (hb _ List.mem_cons_self)
      · rw [← hcommitted, hnone, hw]; simp
      · rw [← hcommitted, hnone, hw]; simp [hlast]
      · rw [← hcommitted, hsome, hw]; simp [hlast]
    · rw [m.store_after, Action.clears_eq_false (by rw [hc]; simp)]
      cases m.commit? <;> rfl

/-- A command in two writes, of which the second is refused the lock once, a write that is too long, and another handle
that commits meanwhile. -/
theorem written_eq_committed_append_pending_two_handles :
    let store : Store := { log := Ring.empty 1, patience := some 1000, draftLimit := some 4 }
    let host : Host := { store := store }
    let life : List (Lock × Action) :=
      [(.free, .write 0 [97]), (.free, .openHandle 1), (.held, .write 0 [98, 10]), (.free, .write 1 [120, 10]),
        (.free, .writeAll 0 [98, 10]), (.free, .write 0 [99, 99, 99, 99, 99]), (.free, .clear), (.free, .write 0 [99]),
        (.free, .write 0 [])]
    let opened := (host.step .free (.openHandle 0)).1
    let past := opened.moves life
    (∀ x ∈ life, x.2.opensOrCloses 0 = false) ∧
      written 0 past = [[97], [98, 10], [99], []] ∧ committedBy 0 past = [[97, 98, 10]] ∧
      ∃ h, (opened.run life).1.handles 0 = some h ∧ [97, 98, 10, 99] = [97, 98, 10] ++ h.draft.bytes := by
  intro store host life opened past
  have hlife : ∀ x ∈ life, x.2.opensOrCloses 0 = false := by decide
  have hwritten : written 0 past = [[97], [98, 10], [99], []] := by decide
  have hcommitted : committedBy 0 past = [[97, 98, 10]] := by decide
  obtain ⟨⟨h, ledger, hh, hbalance, -⟩, -⟩ := written_eq_committed_append_pending host .free 0 hlife
  refine ⟨hlife, hwritten, hcommitted, h, hh, ?_⟩
  change (written 0 past).flatten = (committedBy 0 past).flatten ++ h.draft.bytes at hbalance
  rw [hwritten, hcommitted] at hbalance
  exact hbalance

end Host

end LineRing
