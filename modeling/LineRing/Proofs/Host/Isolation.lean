/-
Clients that commit nothing leave no trace. What a client is told, what it commits and what it has afterwards depend on
the store and on what it has open itself, and on nothing else (`Move.footprint`). Main statement: without the moves of a
handle or a session that commits nothing, every other move of a run finds the same store and the same clients, is
answered alike and commits alike, and the run ends alike (`alike_without_quiet_client`).
-/
import LineRing.Proofs.Host.Effect
import Mathlib.Data.List.Forall2

namespace LineRing

namespace Host

/-! ## Runs without a client -/

/-- Whether a client commits nothing in a run. -/
def Quiet (host : Host) (client : Client) (steps : List (Lock × Action)) : Prop :=
  ∀ m ∈ host.moves steps, m.action.client = client → m.commit? = none

/-- The steps of the others. -/
def stepsBut (client : Client) (steps : List (Lock × Action)) : List (Lock × Action) :=
  steps.filter fun x => x.2.client ≠ client

/-- The moves of a run without those that a client makes in the first part of it. -/
def remaining (host : Host) (client : Client) (life later : List (Lock × Action)) : List Move :=
  ((host.moves life).filter fun m => m.action.client ≠ client) ++ (host.run life).1.moves later

/-! ## Hosts alike but for one client -/

/-- What is open on a host for a client, a handle or a session. -/
def own (host : Host) : Client → Option Handle × Option LiveSession
  | .direct => (none, none)
  | .handle id => (host.handles id, none)
  | .session id => (none, host.sessions id)

/-- Whether two hosts have the same store, and the same open on it for all clients but one. -/
structure AlikeBut (client : Client) (host other : Host) : Prop where
  store : host.store = other.store
  own : ∀ c, c ≠ client → host.own c = other.own c

/-- Whether two moves are the same action, found and left by hosts that are alike but for one client, and answered and
committed alike. -/
structure Move.AlikeBut (client : Client) (m other : Move) : Prop where
  lock : m.lock = other.lock
  action : m.action = other.action
  before : m.before.AlikeBut client other.before
  answer : m.answer = other.answer
  commit : m.commit? = other.commit?
  after : m.after.AlikeBut client other.after

theorem AlikeBut.refl (client : Client) (host : Host) : host.AlikeBut client host := ⟨rfl, fun _ _ => rfl⟩

theorem Move.AlikeBut.refl (client : Client) (m : Move) : m.AlikeBut client m :=
  ⟨rfl, rfl, .refl _ _, rfl, rfl, .refl _ _⟩

theorem ext_own {host other : Host} (hstore : host.store = other.store) (hown : ∀ c, host.own c = other.own c) :
    host = other := by
  obtain ⟨store, handles, sessions⟩ := host
  obtain ⟨store', handles', sessions'⟩ := other
  obtain rfl : handles = handles' := funext fun id => congrArg Prod.fst (hown (.handle id))
  obtain rfl : sessions = sessions' := funext fun id => congrArg Prod.snd (hown (.session id))
  exact congrArg (fun s => Host.mk s handles sessions) hstore

/-! ## What a move depends on -/

theorem withHandle_congr {α : Type} (host other : Host) {id : ClientId} (answer : α → Answer)
    (operation : Handle → Store × Handle × Except Failure α) (hhandle : host.handles id = other.handles id) :
    (host.withHandle id answer operation).2 = (other.withHandle id answer operation).2 ∧
      (host.withHandle id answer operation).1.handles id = (other.withHandle id answer operation).1.handles id := by
  cases hh : other.handles id with
  | none =>
    have hh' := hhandle.trans hh
    rw [withHandle_none _ _ _ _ hh, withHandle_none _ _ _ _ hh', hh, hh']
    exact ⟨rfl, rfl⟩
  | some h =>
    rw [withHandle_some _ _ _ _ hh, withHandle_some _ _ _ _ (hhandle.trans hh)]
    exact ⟨rfl, by simp [setAt]⟩

namespace Move

theorem own_after_of_ne (m : Move) {c : Client} (h : m.action.client ≠ c) : m.after.own c = m.before.own c := by
  cases c with
  | direct => rfl
  | handle id => simp only [own, m.handles_after_of_ne h]
  | session id => simp only [own, m.sessions_after_of_ne h]

/-- A move depends on the store, and on what its client has open unless the client begins here. -/
theorem footprint (m other : Move) (hlock : m.lock = other.lock) (haction : m.action = other.action)
    (hstore : m.before.store = other.before.store)
    (hown : m.action.begins = false → m.before.own m.action.client = other.before.own m.action.client) :
    m.answer = other.answer ∧ m.commit? = other.commit? ∧
      m.after.own m.action.client = other.after.own m.action.client := by
  obtain ⟨⟨store, handles, sessions⟩, lock, action⟩ := m
  obtain ⟨⟨store', handles', sessions'⟩, lock', action'⟩ := other
  obtain rfl : lock = lock' := hlock
  obtain rfl : action = action' := haction
  obtain rfl : store = store' := hstore
  have hoffer : offer? ⟨⟨store, handles, sessions⟩, lock, action⟩ =
      offer? ⟨⟨store, handles', sessions'⟩, lock, action⟩ := by
    cases action with
    | write id | writeAll id =>
      have hhandle : handles id = handles' id := congrArg Prod.fst (hown rfl)
      simp only [offer?, hhandle]
    | settle id =>
      have hsession : sessions id = sessions' id := congrArg Prod.snd (hown rfl)
      simp only [offer?, hsession]
    | _ => rfl
  rw [and_left_comm]
  refine ⟨by unfold commit?; rw [hoffer], ?_⟩
  -- the answer and what the client has afterwards, by what the action looks at: the store, a handle or a session
  cases action with
  | commit | snapshot | count | size | clear => exact ⟨rfl, rfl⟩
  | openHandle | startSession | abandon =>
    exact ⟨rfl, by simp [after, step, Host.own, Action.client, setAt, Store.openHandle]⟩
  | closeHandle id =>
    have hhandle : handles id = handles' id := congrArg Prod.fst (hown rfl)
    exact ⟨by simp only [answer, step, hhandle], by simp [after, step, Host.own, Action.client, setAt]⟩
  | write id | writeAll id | flush id | read id | readAll id | seek id | seekTo id =>
    have hhandle : handles id = handles' id := congrArg Prod.fst (hown rfl)
    obtain ⟨hans, hleft⟩ := withHandle_congr ⟨store, handles, sessions⟩ ⟨store, handles', sessions'⟩ _ _ hhandle
    exact ⟨hans, congrArg (·, none) hleft⟩
  | hear id | settle id =>
    have hsession : sessions id = sessions' id := congrArg Prod.snd (hown rfl)
    simp only [answer, after, step, Host.own, Action.client, hsession]
    split <;> simp [setAt, hsession]

end Move

theorem run_snd (steps : List (Lock × Action)) :
    ∀ host : Host, (host.run steps).2 = (host.moves steps).map Move.answer := by
  induction steps with
  | nil => exact fun _ => rfl
  | cons x rest ih => exact fun host => congrArg ((host.step x.1 x.2).2 :: ·) (ih (host.step x.1 x.2).1)

namespace AlikeBut

variable {client : Client} {host other : Host}

/-! ## One move

A move of the one client that commits nothing is made on one host only, any other move on both. -/

theorem quiet {m : Move} (h : host.AlikeBut client m.before) (hclient : client ≠ .direct)
    (hmine : m.action.client = client) (hquiet : m.commit? = none) : host.AlikeBut client m.after := by
  subst hmine
  constructor
  · rw [m.store_after, Action.clears_eq_false hclient, hquiet]
    exact h.store
  · intro c hc
    rw [m.own_after_of_ne hc.symm]
    exact h.own c hc

/-- A move of another client is the same on both hosts. So is one with which the client itself begins anew, and then
the hosts do not differ any more. -/
theorem move (h : host.AlikeBut client other) (lock : Lock) {action : Action}
    (hbegins : action.client = client → action.begins = true) :
    Move.AlikeBut client ⟨host, lock, action⟩ ⟨other, lock, action⟩ ∧
      (action.client = client → Move.after ⟨host, lock, action⟩ = Move.after ⟨other, lock, action⟩) := by
  have hbefore : action.begins = false → host.own action.client = other.own action.client := by
    intro hb
    refine h.own _ fun hmine => ?_
    rw [hbegins hmine] at hb
    cases hb
  obtain ⟨hans, hcommit, hown⟩ :=
    Move.footprint ⟨host, lock, action⟩ ⟨other, lock, action⟩ rfl rfl h.store hbefore
  have hstore : (Move.after ⟨host, lock, action⟩).store = (Move.after ⟨other, lock, action⟩).store := by
    rw [Move.store_after, Move.store_after, hcommit, h.store]
  have hafter : ∀ c, action.client = c ∨ c ≠ client →
      (Move.after ⟨host, lock, action⟩).own c = (Move.after ⟨other, lock, action⟩).own c := by
    intro c hc
    by_cases hmine : action.client = c
    · rw [← hmine]
      exact hown
    · rw [Move.own_after_of_ne _ hmine, Move.own_after_of_ne _ hmine]
      exact h.own c (hc.resolve_left hmine)
  constructor
  · exact ⟨rfl, rfl, h, hans, hcommit, hstore, fun c hc => hafter c (Or.inr hc)⟩
  · rintro rfl
    exact ext_own hstore fun c => hafter c ((em (action.client = c)).imp id Ne.symm)

/-! ## Runs -/

theorem moves (steps : List (Lock × Action)) : ∀ {host other : Host}, host.AlikeBut client other →
    (∀ x ∈ steps.find? fun x => x.2.client = client, x.2.begins = true) →
    List.Forall₂ (Move.AlikeBut client) (host.moves steps) (other.moves steps) ∧
      (host.run steps).1.AlikeBut client (other.run steps).1 := by
  induction steps with
  | nil => exact fun h _ => ⟨.nil, h⟩
  | cons x rest ih =>
    intro host other h hbegins
    by_cases hmine : x.2.client = client
    -- the one client begins anew, and from here on the hosts are one and the same
    · obtain ⟨hfirst, heq⟩ := h.move x.1 fun _ => hbegins x (by simp [hmine])
      have hsame : (host.step x.1 x.2).1 = (other.step x.1 x.2).1 := heq hmine
      refine ⟨.cons hfirst ?_, ?_⟩
      · rw [hsame]
        exact List.forall₂_same.2 fun m _ => .refl client m
      · show ((host.step x.1 x.2).1.run rest).1.AlikeBut client ((other.step x.1 x.2).1.run rest).1
        rw [hsame]
        exact .refl _ _
    · rw [List.find?_cons_of_neg (by simpa using hmine)] at hbegins
      obtain ⟨hfirst, -⟩ := h.move x.1 fun h' => absurd h' hmine
      obtain ⟨hrest, hend⟩ := ih hfirst.after hbegins
      exact ⟨.cons hfirst hrest, hend⟩

theorem moves_stepsBut (hclient : client ≠ .direct) (steps : List (Lock × Action)) : ∀ {host other : Host},
    host.AlikeBut client other → other.Quiet client steps →
    List.Forall₂ (Move.AlikeBut client) (host.moves (stepsBut client steps))
        ((other.moves steps).filter fun m => m.action.client ≠ client) ∧
      (host.run (stepsBut client steps)).1.AlikeBut client (other.run steps).1 := by
  induction steps with
  | nil => exact fun h _ => ⟨.nil, h⟩
  | cons x rest ih =>
    intro host other h hquiet
    obtain ⟨hx, hrest⟩ := List.forall_mem_cons.1 hquiet
    rw [stepsBut, Host.moves]
    -- a step of the one client is left out here, any other is made on both hosts
    by_cases hmine : x.2.client = client
    · rw [List.filter_cons_of_neg (by simpa using hmine), List.filter_cons_of_neg (by simpa using hmine)]
      exact ih (h.quiet (m := ⟨other, x.1, x.2⟩) hclient hmine (hx hmine)) hrest
    · rw [List.filter_cons_of_pos (by simpa using hmine), List.filter_cons_of_pos (by simpa using hmine)]
      obtain ⟨hfirst, -⟩ := h.move x.1 fun h' => absurd h' hmine
      obtain ⟨hothers, hend⟩ := ih hfirst.after hrest
      exact ⟨.cons hfirst hothers, hend⟩

end AlikeBut

/-! ## The main statement -/

theorem moves_without (host : Host) {client : Client} (hclient : client ≠ .direct) {life later : List (Lock × Action)}
    (hquiet : host.Quiet client life) (hlater : ∀ x ∈ later.find? fun x => x.2.client = client, x.2.begins = true) :
    List.Forall₂ (Move.AlikeBut client) (host.moves (stepsBut client life ++ later))
        (host.remaining client life later) ∧
      (host.run (stepsBut client life ++ later)).1.AlikeBut client (host.run (life ++ later)).1 := by
  obtain ⟨hlife, hmiddle⟩ := AlikeBut.moves_stepsBut hclient life (.refl client host) hquiet
  obtain ⟨hrest, hend⟩ := hmiddle.moves later hlater
  rw [moves_append, run_append, run_append]
  exact ⟨List.rel_append hlife hrest, hend⟩

theorem map_eq_of_alike {α : Type} {client : Client} {f : Move → α} (hf : ∀ m m', m.AlikeBut client m' → f m = f m')
    {l l' : List Move} (h : List.Forall₂ (Move.AlikeBut client) l l') : l.map f = l'.map f := by
  rw [← List.forall₂_eq_eq_eq]
  exact List.rel_map hf h

/-- A client that commits nothing is invisible. Take a handle or a session, the part `life` of a run in which it commits
nothing, whatever it is given and however its waits for the lock end, and what comes `later`; a client of its name that
begins there is another one. Without its moves, each of the other moves is made, finds and leaves the same store and the
same handles and sessions of the others, and is answered alike and commits alike; and so the run ends. In particular, it
makes no difference to the others what else the client does instead, as long as it commits nothing. -/
theorem alike_without_quiet_client (host : Host) {client : Client} (hclient : client ≠ .direct)
    {life later : List (Lock × Action)} (hquiet : host.Quiet client life)
    (hlater : ∀ x ∈ later.find? fun x => x.2.client = client, x.2.begins = true) :
    let whole := host.run (life ++ later)
    let without := stepsBut client life ++ later
    List.Forall₂ (Move.AlikeBut client) (host.moves without) (host.remaining client life later) ∧
      (host.run without).2 = (host.remaining client life later).map Move.answer ∧
      (host.run without).1.store = whole.1.store ∧
      (∀ id, client ≠ .handle id → (host.run without).1.handles id = whole.1.handles id) ∧
      (∀ id, client ≠ .session id → (host.run without).1.sessions id = whole.1.sessions id) ∧
      ∀ instead, stepsBut client instead = stepsBut client life → host.Quiet client instead →
        (host.remaining client instead later).map (fun m => (m.action, m.answer, m.commit?)) =
          (host.remaining client life later).map fun m => (m.action, m.answer, m.commit?) := by
  intro whole without
  obtain ⟨hmoves, hend⟩ := host.moves_without hclient hquiet hlater
  refine ⟨hmoves, ?_, hend.store, fun id hid => ?_, fun id hid => ?_, fun instead hothers hquiet' => ?_⟩
  · rw [run_snd]
    exact map_eq_of_alike (fun m m' h => h.answer) hmoves
  · exact congrArg Prod.fst (hend.own (.handle id) hid.symm)
  · exact congrArg Prod.snd (hend.own (.session id) hid.symm)
  · have hshown : ∀ m m' : Move, m.AlikeBut client m' →
        (m.action, m.answer, m.commit?) = (m'.action, m'.answer, m'.commit?) := by
      intro m m' h
      rw [h.action, h.answer, h.commit]
    obtain ⟨hmoves', -⟩ := host.moves_without hclient hquiet' hlater
    rw [hothers] at hmoves'
    exact (map_eq_of_alike hshown hmoves').symm.trans (map_eq_of_alike hshown hmoves)

/-- A handle writes, and cannot end its command while the lock is held; a session is sent what another handle has
committed. The name of the handle is used again later, by one that commits. -/
theorem alike_without_quiet_client_reopened :
    let host : Host := { store := { log := Ring.empty 2, patience := some 5000 } }
    let life : List (Lock × Host.Action) :=
      [(.free, .openHandle 0), (.free, .openHandle 1), (.free, .write 0 [97, 98]), (.free, .write 1 [120, newline]),
        (.held, .write 0 [newline]), (.free, .startSession 0 ⟨1, 64, 0, 0⟩), (.free, .read 0 4), (.free, .read 1 1),
        (.free, .hear 0 (.bytes (Directive.encode ⟨0, 1⟩))), (.free, .settle 0 .accepting), (.free, .closeHandle 0)]
    let later : List (Lock × Host.Action) := [(.free, .read 1 9), (.free, .openHandle 0), (.free, .write 0 [newline])]
    let without := stepsBut (.handle 0) life ++ later
    Client.handle 0 ≠ .direct ∧ host.Quiet (.handle 0) life ∧
      (∀ x ∈ later.find? fun x => x.2.client = .handle 0, x.2.begins = true) ∧ without.length = 9 ∧
      (host.run (life ++ later)).1.store.log.toList = [[120, newline], [newline]] ∧
      (host.run without).1.store.log.toList = [[120, newline], [newline]] := by
  intro host life later without
  have hclient : Client.handle 0 ≠ .direct := by decide
  have hquiet : host.Quiet (.handle 0) life := by unfold Quiet; decide
  have hlater : ∀ x ∈ later.find? fun x => x.2.client = .handle 0, x.2.begins = true := by
    rintro x hx
    obtain rfl : _ = x := Option.some.inj hx
    rfl
  obtain ⟨-, -, hstore, -⟩ := alike_without_quiet_client host hclient hquiet hlater
  have hlog : (host.run (life ++ later)).1.store.log.toList = [[120, newline], [newline]] := by decide
  exact ⟨hclient, hquiet, hlater, by decide, hlog, (congrArg (fun s => s.log.toList) hstore).trans hlog⟩

end Host

end LineRing
