/-
Runs of a host, move by move. A move is one action of one client, with the host and the lock as the client finds them.
`Move.commit?` is the entry that a move commits, and `Move.store_after` says that moves change the store by commits and
clearings only. What a client has of the command it is at (`Host.pending?`) is what it was given since it began
(`received`): the moves of others do not touch it.
-/
import LineRing.Host
import LineRing.Proofs.Handle.Operation
import LineRing.Proofs.Ring.Queue
import LineRing.Proofs.Session.Settle

namespace LineRing

namespace Host

/-! ## Clients -/

/-- Who acts: a handle, a session, or one that uses the store directly. -/
inductive Client where
  | direct
  | handle (id : ClientId)
  | session (id : ClientId)
  deriving DecidableEq, Repr

namespace Action

/-- Whose action it is. -/
def client : Action → Client
  | commit _ | snapshot | count | size | clear => .direct
  | openHandle id | closeHandle id | write id _ | writeAll id _ | flush id | read id _ | readAll id | seek id _
  | seekTo id _ => .handle id
  | startSession id _ | hear id _ | settle id _ | abandon id => .session id

/-- The bytes that the client brings with it. -/
def bytes : Action → Bytes
  | commit e => e
  | write _ data | writeAll _ data => data
  | hear _ (.bytes piece) => piece
  | _ => []

/-- Whether a client begins here. -/
def begins : Action → Bool
  | openHandle _ | startSession .. => true
  | _ => false

/-- Whether all commands are released. -/
def clears : Action → Bool
  | clear => true
  | _ => false

theorem clears_eq_false {action : Action} (h : action.client ≠ .direct) : action.clears = false := by
  cases action with
  | clear => exact absurd rfl h
  | _ => rfl

end Action

/-- Whether an answer says that nothing was done. -/
def Answer.isRefusal : Answer → Bool
  | missing | failed _ => true
  | _ => false

/-- What a client has of the command it is at; none where it is not under way, or will keep no command. -/
def pending? (host : Host) : Client → Option Bytes
  | .direct => some []
  | .handle id => (host.handles id).map fun h => h.draft.bytes
  | .session id => (host.sessions id).bind fun live => live.stage.pending?

/-! ## Moves -/

/-- An action, with the host and the lock as the client finds them. -/
structure Move where
  before : Host
  lock : Lock
  action : Action

namespace Move

/-- The host that a move leaves. -/
def after (m : Move) : Host := (m.before.step m.lock m.action).1

/-- What the client is told. -/
def answer (m : Move) : Answer := (m.before.step m.lock m.action).2

/-- The entry that the client has whole and asks to be committed. -/
def offer? (m : Move) : Option Entry :=
  match m.action with
  | .commit e => some e
  | .write id data => (m.before.handles id).bind fun h => h.ended? data
  | .writeAll id data => if data.isEmpty then none else (m.before.handles id).bind fun h => h.ended? data
  | .settle id _ =>
    match m.before.sessions id with
    | some ⟨_, .decided (.keep e)⟩ => some e
    | _ => none
  | _ => none

/-- The entry that a move commits: one that is offered by a client that has the lock. -/
def commit? (m : Move) : Option Entry :=
  match m.before.store.acquire m.lock with
  | .ok () => m.offer?
  | .error _ => none

/-- The entry that is dropped to make room for the one that a move commits. -/
def evicted? (m : Move) : Option Entry := m.commit?.bind fun e => (m.before.store.log.insert e).2

/-- What a client has been given of the command it is at, after one more move. -/
def carry (m : Move) (client : Client) (got : Bytes) : Bytes :=
  if m.action.client ≠ client then got
  else if m.action.begins || m.commit?.isSome then []
  else if m.answer.isRefusal then got
  else got ++ m.action.bytes

/-- What a move does to the log. -/
def op? (m : Move) : Option (Ring.Op Entry) :=
  if m.action.clears then some .clear else m.commit?.map .insert

end Move

/-- The moves of a run, first move first. -/
def moves (host : Host) : List (Lock × Action) → List Move
  | [] => []
  | (lock, action) :: rest => ⟨host, lock, action⟩ :: moves (host.step lock action).1 rest

/-- The entries committed since the last clearing, in the order in which their clients had the lock. -/
def committed (past : List Move) : List Entry := Ring.inserted (past.filterMap Move.op?)

/-- The entries evicted since the last clearing, once one more move is made. -/
def Move.drops (m : Move) (gone : List Entry) : List Entry :=
  if m.action.clears then [] else gone ++ m.evicted?.toList

/-- The entries evicted since the last clearing, first one first. -/
def dropped (past : List Move) : List Entry := past.foldl (fun gone m => m.drops gone) []

/-- What a client has been given of the command it is at, by a past. -/
def received (client : Client) (past : List Move) : Bytes := past.foldl (fun got m => m.carry client got) []

/-! ## Runs -/

theorem filterMap_concat {α β : Type} (f : α → Option β) (l : List α) (a : α) :
    (l ++ [a]).filterMap f = l.filterMap f ++ (f a).toList := by
  rw [List.filterMap_append, List.filterMap_cons]
  cases f a <;> rfl

theorem run_append (a b : List (Lock × Action)) :
    ∀ host : Host, (host.run (a ++ b)).1 = ((host.run a).1.run b).1 := by
  induction a with
  | nil => exact fun _ => rfl
  | cons x rest ih => exact fun host => ih (host.step x.1 x.2).1

theorem moves_append (a b : List (Lock × Action)) :
    ∀ host : Host, host.moves (a ++ b) = host.moves a ++ (host.run a).1.moves b := by
  induction a with
  | nil => exact fun _ => rfl
  | cons x rest ih =>
    intro host
    rw [List.cons_append, moves, ih]; rfl

theorem forall_action_moves {Q : Action → Prop} (steps : List (Lock × Action)) :
    ∀ {host : Host}, (∀ x ∈ steps, Q x.2) → ∀ m ∈ host.moves steps, Q m.action := by
  induction steps with
  | nil => exact fun _ => List.forall_mem_nil _
  | cons x rest ih =>
    intro host h
    obtain ⟨hx, hrest⟩ := List.forall_mem_cons.1 h
    exact List.forall_mem_cons.2 ⟨hx, ih hrest⟩

/-- A move of a run is made from where the actions before it lead. -/
theorem exists_of_moves_eq (steps : List (Lock × Action)) :
    ∀ {host : Host} {past rest : List Move} {m : Move}, host.moves steps = past ++ m :: rest →
      ∃ a b, steps = a ++ (m.lock, m.action) :: b ∧ past = host.moves a ∧ m.before = (host.run a).1 ∧
        rest = m.after.moves b := by
  induction steps with
  | nil =>
    intro host past rest m h
    exact absurd h.symm (by simp [moves])
  | cons x steps ih =>
    intro host past rest m h
    cases past with
    | nil =>
      obtain ⟨rfl, hrest⟩ := List.cons.inj h
      exact ⟨[], steps, rfl, rfl, rfl, hrest.symm⟩
    | cons first past =>
      obtain ⟨rfl, htail⟩ := List.cons.inj h
      obtain ⟨a, b, rfl, rfl, hbefore, hrest⟩ := ih htail
      exact ⟨x :: a, b, rfl, rfl, hbefore, hrest⟩

/-- What each move of a kind keeps, of the moves made so far and of the host, is kept by runs of such moves. -/
theorem run_induction_of {Q : Action → Prop} {P : List Move → Host → Prop}
    (hstep : ∀ past m, Q m.action → P past m.before → P (past ++ [m]) m.after) :
    ∀ (steps : List (Lock × Action)) {past : List Move} {host : Host}, (∀ x ∈ steps, Q x.2) → P past host →
      P (past ++ host.moves steps) (host.run steps).1
  | [], past, host, _, h => by
    rw [moves, List.append_nil]
    exact h
  | x :: rest, past, host, hQ, h => by
    obtain ⟨hx, hrest⟩ := List.forall_mem_cons.1 hQ
    have hnext := run_induction_of hstep rest hrest (hstep past ⟨host, x.1, x.2⟩ hx h)
    rw [List.append_assoc] at hnext
    exact hnext

/-- What a new store has, and each move keeps, of the moves made so far and of the host, holds of every run. -/
theorem run_induction {P : List Move → Host → Prop} {store : Store} (hnew : P [] { store := store })
    (hstep : ∀ past m, P past m.before → P (past ++ [m]) m.after) (steps : List (Lock × Action)) :
    P (moves { store := store } steps) (run { store := store } steps).1 :=
  run_induction_of (Q := fun _ => True) (fun past m _ => hstep past m) steps (fun _ _ => trivial) hnew

/-! ## Operations of handles -/

section Operations

variable {α : Type} (host : Host) (id : ClientId) (answer : α → Answer)
  (operation : Handle → Store × Handle × Except Failure α)

theorem withHandle_none (h : host.handles id = none) : host.withHandle id answer operation = (host, .missing) := by
  unfold withHandle; rw [h]

theorem withHandle_some {h : Handle} (hh : host.handles id = some h) :
    host.withHandle id answer operation =
      ({ host with store := (operation h).1, handles := setAt host.handles id (some (operation h).2.1) },
        .of answer (operation h).2.2) := by
  unfold withHandle; rw [hh]

/-- An operation is answered by what it comes to, or not done. -/
theorem withHandle_answer_ne {told : Answer} (htold : told.isRefusal = false) (hans : ∀ a, answer a ≠ told) :
    (host.withHandle id answer operation).2 ≠ told := by
  cases hh : host.handles id with
  | none =>
    rw [withHandle_none _ _ _ _ hh]
    rintro rfl; cases htold
  | some h =>
    rw [withHandle_some _ _ _ _ hh]
    cases (operation h).2.2 with
    | error failure => rintro rfl; cases htold
    | ok a => exact hans a

theorem readHandle_store (look : Handle → Handle × Except Failure α) :
    (host.readHandle id answer look).1.store = host.store := by
  unfold readHandle withHandle
  split <;> rfl

theorem withHandle_sessions : (host.withHandle id answer operation).1.sessions = host.sessions := by
  unfold withHandle
  split <;> rfl

theorem withHandle_handles_of_ne {other : ClientId} (h : other ≠ id) :
    (host.withHandle id answer operation).1.handles other = host.handles other := by
  unfold withHandle
  split
  · rfl
  · exact if_neg h

theorem withHandle_handles_self :
    (host.withHandle id answer operation).1.handles id = (host.handles id).map fun h => (operation h).2.1 := by
  cases hh : host.handles id with
  | none => rw [withHandle_none _ _ _ _ hh, hh]; rfl
  | some h => rw [withHandle_some _ _ _ _ hh]; exact if_pos rfl

theorem isRefusal_withHandle {h : Handle} (hh : host.handles id = some h) (hans : ∀ a, (answer a).isRefusal = false) :
    (host.withHandle id answer operation).2.isRefusal = !(operation h).2.2.isOk := by
  rw [withHandle_some _ _ _ _ hh]
  cases hr : (operation h).2.2 with
  | error failure => simp [Answer.of, Answer.isRefusal, Except.isOk, Except.toBool]
  | ok a => simp [Answer.of, hans, Except.isOk, Except.toBool]

theorem readHandle_pending? {look : Handle → Handle × Except Failure α} (hlook : ∀ h, (look h).1.draft = h.draft)
    (client : Client) : (host.readHandle id answer look).1.pending? client = host.pending? client := by
  cases client with
  | direct => rfl
  | session other =>
    show ((host.readHandle id answer look).1.sessions other).bind _ = _
    unfold readHandle; rw [withHandle_sessions]; rfl
  | handle other =>
    show ((host.readHandle id answer look).1.handles other).map _ = (host.handles other).map _
    unfold readHandle
    by_cases ho : other = id
    · subst ho
      cases hh : host.handles other with
      | none => rw [withHandle_none _ _ _ _ hh, hh]
      | some h => rw [withHandle_some _ _ _ _ hh]; simp [setAt, hlook]
    · rw [withHandle_handles_of_ne _ _ _ _ ho]

end Operations

end Host

end LineRing
