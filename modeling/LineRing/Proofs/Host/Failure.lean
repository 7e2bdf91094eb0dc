/-
Operations of handles that fail, on a host with many clients. Such an operation leaves the whole host as it was
(`step_of_failed`). Main statement: these operations may be left out of any run, and a write that was refused the lock,
however often, commits once when it is made again and has the lock (`failed_operations_leave_no_trace`).
-/
import LineRing.Proofs.Handle.Failure
import LineRing.Proofs.Host.Isolation
import LineRing.Proofs.Host.Ledger

namespace LineRing

namespace Host

theorem setAt_self {α : Type} {table : ClientId → Option α} {id : ClientId} {value : Option α} (h : table id = value) :
    setAt table id value = table := by
  funext other
  unfold setAt
  split
  · rename_i heq; rw [heq, h]
  · rfl

theorem withHandle_of_failed {α : Type} (host : Host) (id : ClientId) {answer : α → Answer}
    {operation : Handle → Store × Handle × Except Failure α} {failure : Failure}
    (hans : ∀ a, answer a ≠ .failed failure)
    (hop : ∀ h, (operation h).2.2 = .error failure →
      operation h = (host.store, h, .error failure) ∧ Handle.Refusal failure)
    (hf : (host.withHandle id answer operation).2 = .failed failure) :
    (host.withHandle id answer operation).1 = host ∧ Handle.Refusal failure := by
  cases hh : host.handles id with
  | none => rw [withHandle_none _ _ _ _ hh] at hf; cases hf
  | some h =>
    rw [withHandle_some _ _ _ _ hh] at hf ⊢
    cases hr : (operation h).2.2 with
    | ok a =>
      rw [hr] at hf
      exact absurd hf (hans a)
    | error f =>
      rw [hr] at hf
      cases hf
      obtain ⟨heq, hrefusal⟩ := hop h hr
      rw [heq, setAt_self hh]
      exact ⟨rfl, hrefusal⟩

theorem readHandle_of_failed {α : Type} (host : Host) (id : ClientId) {answer : α → Answer}
    {look : Handle → Handle × Except Failure α} {failure : Failure} (hans : ∀ a, answer a ≠ .failed failure)
    (hlook : ∀ h, (look h).2 = .error failure → look h = (h, .error failure) ∧ Handle.Refusal failure)
    (hf : (host.readHandle id answer look).2 = .failed failure) :
    (host.readHandle id answer look).1 = host ∧ Handle.Refusal failure := by
  refine withHandle_of_failed host id hans (fun h hr => ?_) hf
  obtain ⟨heq, hrefusal⟩ := hlook h hr
  exact ⟨by rw [heq], hrefusal⟩

/-- An operation of a handle that fails leaves the host as it was. -/
theorem step_of_failed (host : Host) (lock : Lock) {action : Action} {id : ClientId} {failure : Failure}
    (hclient : action.client = .handle id) (hf : (host.step lock action).2 = .failed failure) :
    (host.step lock action).1 = host ∧ Handle.Refusal failure := by
  cases action with
  | write other data => exact withHandle_of_failed host other (by simp) (fun _ => Handle.write_of_error) hf
  | writeAll other data => exact withHandle_of_failed host other (by simp) (fun _ => Handle.writeAll_of_error) hf
  | flush other => exact readHandle_of_failed host other (by simp) (fun _ hr => by cases hr) hf
  | read other most => exact readHandle_of_failed host other (by simp) (fun _ => Handle.read_of_error) hf
  | readAll other => exact readHandle_of_failed host other (by simp) (fun _ => Handle.readAll_of_error) hf
  | seek other whence => exact readHandle_of_failed host other (by simp) (fun _ => Handle.seek_of_error) hf
  | seekTo other d => exact readHandle_of_failed host other (by simp) (fun _ => Handle.seekTo_of_error) hf
  | openHandle | closeHandle => cases hf
  | _ => cases hclient

/-! ## Runs without them -/

/-- Whether a move is an operation of a handle that fails. -/
def Move.fails (m : Move) : Bool :=
  match m.action.client, m.answer with
  | .handle _, .failed _ => true
  | _, _ => false

theorem Move.after_of_fails {m : Move} (h : m.fails = true) : m.after = m.before := by
  unfold fails at h
  split at h
  · rename_i hclient hf
    exact (step_of_failed m.before m.lock hclient hf).1
  · cases h

/-- The steps of a run but those of the moves of a kind. -/
def stepsWithout (kind : Move → Bool) (host : Host) (steps : List (Lock × Action)) : List (Lock × Action) :=
  ((host.moves steps).filter fun m => !kind m).map fun m => (m.lock, m.action)

theorem stepsWithout_client (client : Client) (steps : List (Lock × Action)) :
    ∀ host : Host, stepsWithout (fun m => m.action.client = client) host steps = stepsBut client steps := by
  induction steps with
  | nil => exact fun _ => rfl
  | cons x rest ih =>
    intro host
    have hrest := ih (host.step x.1 x.2).1
    unfold stepsWithout stepsBut at hrest ⊢
    rw [moves]
    by_cases hmine : x.2.client = client
    · rw [List.filter_cons_of_neg (by simpa using hmine), List.filter_cons_of_neg (by simpa using hmine), hrest]
    · rw [List.filter_cons_of_pos (by simpa using hmine), List.filter_cons_of_pos (by simpa using hmine),
        List.map_cons, hrest]

/-- Where the moves of a kind leave the host as it was, each of the others is made from the same host without them. -/
theorem moves_stepsWithout (kind : Move → Bool) (steps : List (Lock × Action)) :
    ∀ host : Host, (∀ m ∈ host.moves steps, kind m = true → m.after = m.before) →
      host.moves (stepsWithout kind host steps) = (host.moves steps).filter (fun m => !kind m) ∧
        (host.run (stepsWithout kind host steps)).1 = (host.run steps).1 := by
  induction steps with
  | nil => exact fun _ _ => ⟨rfl, rfl⟩
  | cons x rest ih =>
    intro host h
    obtain ⟨hx, hrest⟩ := List.forall_mem_cons.1 h
    obtain ⟨hmoves, hend⟩ := ih _ hrest
    unfold stepsWithout at hmoves hend ⊢
    rw [moves]
    cases hkind : kind ⟨host, x.1, x.2⟩ with
    | true =>
      have hsame : (host.step x.1 x.2).1 = host := hx hkind
      rw [List.filter_cons_of_neg (by simp [hkind])]
      rw [hsame] at hmoves hend ⊢
      refine ⟨hmoves, hend.trans ?_⟩
      show (host.run rest).1 = ((host.step x.1 x.2).1.run rest).1
      rw [hsame]
    | false =>
      rw [List.filter_cons_of_pos (by simp [hkind]), List.map_cons, moves]
      exact ⟨congrArg _ hmoves, hend⟩

/-! ## Writes that are made again -/

/-- A write that fails commits nothing. -/
theorem Move.commit?_of_failed {m : Move} {id : ClientId} {data : Bytes} {failure : Failure}
    (haction : m.action = .write id data) (hf : m.answer = .failed failure) : m.commit? = none := by
  have hw : m.action.write? = some (id, data) := by rw [haction]; rfl
  cases hh : m.before.handles id with
  | none => exact m.commit?_of_offer?_eq_none (write_missing hw hh).2
  | some h =>
    obtain ⟨-, -, hrefusal, hoffer⟩ := write_step hw hh
    rcases h.write_cases m.before.store m.lock data with ⟨f, -, he, -⟩ | ⟨-, heq⟩ | ⟨e, f, -, hl, -⟩ | ⟨e, -, -, heq⟩
    · exact m.commit?_of_offer?_eq_none (hoffer.trans he)
    · rw [hf, heq] at hrefusal; cases hrefusal
    · exact commit?_of_error hl
    · rw [hf, heq] at hrefusal; cases hrefusal

/-- A write is refused the lock only where it would end the command. -/
theorem ended?_of_lockTimeout {host : Host} {lock : Lock} {id : ClientId} {h : Handle} {data : Bytes} {waited : Nat}
    (hh : host.handles id = some h) (hf : (host.step lock (.write id data)).2 = .failed (.lockTimeout waited)) :
    (h.ended? data).isSome := by
  simp only [step, withHandle_some _ _ _ _ hh] at hf
  rcases h.write_cases host.store lock data with ⟨f, happ, -, heq⟩ | ⟨-, heq⟩ | ⟨e, f, he, -, -⟩ | ⟨e, he, -, -⟩
  · obtain ⟨limit, -, -, rfl⟩ := Draft.append_eq_error_iff.1 happ
    rw [heq] at hf; cases hf
  · rw [heq] at hf; cases hf
  · rw [he]; rfl
  · rw [he]; rfl

/-- Whether the steps of a handle in a run are all the same write, and each of them is refused the lock. -/
def OnlyRefused (host : Host) (id : ClientId) (data : Bytes) (steps : List (Lock × Action)) : Prop :=
  ∀ m ∈ host.moves steps, m.action.client = .handle id →
    m.action = .write id data ∧ ∃ waited, m.answer = .failed (.lockTimeout waited)

namespace OnlyRefused

variable {host : Host} {id : ClientId} {data : Bytes} {tries : List (Lock × Action)}

theorem after_eq (h : host.OnlyRefused id data tries) :
    ∀ m ∈ host.moves tries, m.action.client = .handle id → m.after = m.before := by
  intro m hm hclient
  obtain ⟨-, waited, hf⟩ := h m hm hclient
  exact (step_of_failed m.before m.lock hclient hf).1

theorem moves_others (h : host.OnlyRefused id data tries) :
    host.moves (stepsBut (.handle id) tries) = (host.moves tries).filter (fun m => m.action.client ≠ .handle id) ∧
      (host.run (stepsBut (.handle id) tries)).1 = (host.run tries).1 := by
  have hwithout := moves_stepsWithout (fun m => m.action.client = .handle id) tries host
    fun m hm hclient => h.after_eq m hm (of_decide_eq_true hclient)
  rw [stepsWithout_client] at hwithout
  simpa using hwithout

theorem handles_eq (h : host.OnlyRefused id data tries) : (host.run tries).1.handles id = host.handles id := by
  rw [← h.moves_others.2]
  refine @run_induction_of (fun action => action.client ≠ .handle id) (fun _ later => later.handles id = host.handles id)
    (fun _ m hm hsame => ?_) _ [] host (fun x hx => ?_) rfl
  · rw [m.handles_after_of_ne hm, hsame]
  · simpa using (List.mem_filter.1 hx).2

theorem committedBy_eq (h : host.OnlyRefused id data tries) : committedBy id (host.moves tries) = [] := by
  refine List.filterMap_eq_nil_iff.2 fun m hm => ?_
  by_cases hclient : m.action.client = .handle id
  · obtain ⟨haction, waited, hf⟩ := h m hm hclient
    exact (if_pos hclient).trans (Move.commit?_of_failed haction hf)
  · exact if_neg hclient

end OnlyRefused

/-! ## The main statement -/

/-- Operations of handles that fail leave no trace. Such an operation, on whatever host and for whatever cause, leaves
the host as it was. So these operations may be left out of a run: each of the other moves is made from the same host and
answered alike, and the run ends alike. A write is refused the lock only where it would end a command. However often it
is refused, and whatever others do meanwhile, if it is made again with the lock free, it is done and commits all that
was written of the command, and the handle commits nothing else. Without the refused writes, the moves of the others and
the last write are the same, and so is the end. -/
theorem failed_operations_leave_no_trace (host : Host) :
    (∀ (lock : Lock) (action : Action) (id : ClientId) (failure : Failure), action.client = .handle id →
      (host.step lock action).2 = .failed failure → (host.step lock action).1 = host ∧ Handle.Refusal failure) ∧
    (∀ steps : List (Lock × Action),
      let done := stepsWithout Move.fails host steps
      host.moves done = (host.moves steps).filter (fun m => !m.fails) ∧
        (host.run done).2 = ((host.moves steps).filter (fun m => !m.fails)).map Move.answer ∧
        (host.run done).1 = (host.run steps).1) ∧
    ∀ (id : ClientId) (h : Handle) (data : Bytes), host.handles id = some h →
      (∀ (lock : Lock) (waited : Nat), (host.step lock (.write id data)).2 = .failed (.lockTimeout waited) →
        (h.ended? data).isSome) ∧
      ∀ (e : Entry) (tries : List (Lock × Action)), h.ended? data = some e → host.OnlyRefused id data tries →
        let again : Lock × Action := (.free, .write id data)
        let others := stepsBut (.handle id) tries
        let refused := host.run tries
        let whole := host.run (tries ++ [again])
        e = h.draft.bytes ++ data ∧ whole.2 = refused.2 ++ [.number data.length] ∧
        committedBy id (host.moves (tries ++ [again])) = [e] ∧ whole.1.store = (refused.1.store.insert e).1 ∧
        whole.1.handles id = some { h with draft := h.draft.clear } ∧
        host.moves (others ++ [again]) =
          (host.moves tries).filter (fun m => m.action.client ≠ .handle id) ++ [⟨refused.1, .free, .write id data⟩] ∧
        (host.run (others ++ [again])).1 = whole.1 := by
  refine ⟨fun lock action id failure => host.step_of_failed lock, fun steps => ?_, fun id h data hh => ⟨?_, ?_⟩⟩
  · obtain ⟨hmoves, hend⟩ := moves_stepsWithout Move.fails steps host fun m _ hfails => Move.after_of_fails hfails
    exact ⟨hmoves, by rw [run_snd, hmoves], hend⟩
  · exact fun lock waited hf => ended?_of_lockTimeout hh hf
  · intro e tries he hrefused again others refused whole
    obtain ⟨hothers, hsame⟩ := hrefused.moves_others
    have hhandle : refused.1.handles id = some h := hrefused.handles_eq.trans hh
    have hmoves : ∀ steps, host.moves (steps ++ [again]) = host.moves steps ++ [⟨(host.run steps).1, again.1, again.2⟩] :=
      fun steps => moves_append steps [again] host
    -- the last write, made from where the refused ones have led
    have hlock : refused.1.store.acquire .free = .ok () := rfl
    have hwrite := Handle.write_of_ended? he hlock
    have hstep : refused.1.step .free (.write id data) =
        ({ refused.1 with
            store := (refused.1.store.insert e).1
            handles := setAt refused.1.handles id (some { h with draft := h.draft.clear }) },
          .number data.length) := by
      simp only [step, withHandle_some _ _ _ _ hhandle, hwrite, Answer.of]
    have hcommit : Move.commit? ⟨refused.1, .free, .write id data⟩ = some e := by
      obtain ⟨-, -, -, hoffer⟩ := Move.write_step (m := ⟨refused.1, .free, .write id data⟩) rfl hhandle
      exact (Move.commit?_of_ok hlock).trans (hoffer.trans he)
    have hend : whole.1 = (refused.1.step .free (.write id data)).1 := run_append tries [again] host
    rw [hend, hstep]
    refine ⟨(Handle.ended?_eq_some he).1, ?_, ?_, rfl, if_pos rfl, ?_, ?_⟩
    · rw [run_snd, run_snd, hmoves, List.map_append]
      exact congrArg (fun outcome : Host × Answer => (host.moves tries).map Move.answer ++ [outcome.2]) hstep
    · rw [hmoves, committedBy, filterMap_concat]
      show committedBy id (host.moves tries) ++ _ = _
      have hcommitted : Move.committed? ⟨refused.1, .free, .write id data⟩ id = some e := (if_pos rfl).trans hcommit
      rw [hrefused.committedBy_eq, hcommitted]; rfl
    · rw [hmoves, hothers, hsame]
    · rw [run_append, hsame]
      exact congrArg Prod.fst hstep

/-- A command in two writes, of which the second is refused the lock twice, with another handle that commits meanwhile;
and a write that is too long, seeks to where there is nothing, and a read without the lock. -/
theorem failed_operations_leave_no_trace_second_write :
    let store : Store := { log := Ring.empty 2, patience := some 5000, draftLimit := some 4 }
    let host := (run { store := store } [(.free, .openHandle 0), (.free, .openHandle 1), (.free, .write 0 [97])]).1
    let again : Lock × Action := (.free, .write 0 [98, newline])
    let tries : List (Lock × Action) :=
      [(.held, .write 0 [98, newline]), (.free, .write 1 [120, newline]), (.held, .write 0 [98, newline])]
    let failing : List (Lock × Action) :=
      [(.free, .write 0 [98, 99, 100, newline]), (.free, .seekTo 1 ⟨7, 0⟩), (.free, .seek 1 (.current (-1))),
        (.held, .read 1 4)]
    (host.step .free (.write 0 [98, 99, 100, newline])).1 = host ∧
      (stepsWithout Move.fails host (tries ++ failing ++ [again])).length = 2 ∧
      (host.run (tries ++ failing ++ [again])).1.store.log.toList = [[120, newline], [97, 98, newline]] ∧
      committedBy 0 (host.moves (tries ++ [again])) = [[97, 98, newline]] ∧
      (host.run [(.free, .write 1 [120, newline]), again]).1 = (host.run (tries ++ [again])).1 := by
  intro store host again tries failing
  obtain ⟨hstep, hruns, hretry⟩ := failed_operations_leave_no_trace host
  obtain ⟨-, -, hend⟩ := hruns (tries ++ failing ++ [again])
  have hrefused : host.OnlyRefused 0 [98, newline] tries := by
    unfold OnlyRefused
    simp only [tries, moves, List.forall_mem_cons]
    exact ⟨fun _ => ⟨trivial, 5, rfl⟩, fun hclient => (by cases hclient), fun _ => ⟨trivial, 5, rfl⟩,
      List.forall_mem_nil _⟩
  obtain ⟨-, honce⟩ := hretry 0 { draft := ⟨[97], some 4⟩ } [98, newline] rfl
  obtain ⟨-, -, hcommitted, -, -, -, hsame⟩ := honce [97, 98, newline] tries (by decide) hrefused
  refine ⟨(hstep .free (.write 0 [98, 99, 100, newline]) 0 (.tooLarge 5 4) rfl rfl).1, by decide, ?_, hcommitted, hsame⟩
  rw [← hend]
  decide

end Host

end LineRing
