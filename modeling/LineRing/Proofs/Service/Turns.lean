/-
What happens at a service, turn by turn: peers come, sessions read, settle or crash, workers are joined, and other
clients use the store. Every session under way has a worker that runs (`Service.WF`). So once no worker runs, the
sessions can do nothing more, and what the log holds is up to the other clients (`Service.run_of_idle`).
-/
import LineRing.Proofs.Host.Effect
import LineRing.Proofs.Workers.Gate
import LineRing.Service

namespace LineRing

namespace Service

/-! ## Turns -/

/-- What happens at a service. -/
inductive Turn where
  | accept (refused : Option Fault)
  | reap
  | hear (id : WorkerId) (a : Session.Arrival)
  | settle (id : WorkerId) (lock : Lock) (outlet : Outlet)
  /-- A worker ends abnormally. -/
  | crash (id : WorkerId)
  /-- Another client of the store acts; the sessions are the service's own. -/
  | other (lock : Lock) (action : Host.Action) (foreign : ∀ id, action.client ≠ .session id)

def turn (v : Service) : Turn → Service
  | .accept refused => (v.accept refused).1
  | .reap => v.reap
  | .hear id a => v.hear id a
  | .settle id lock outlet => (v.settle id lock outlet).1
  | .crash id => v.finish id
  | .other lock action _ => v.act lock action

def run (v : Service) (turns : List Turn) : Service := turns.foldl turn v

namespace Turn

/-- Whether the turn is a call of the service, and so cannot come while the service is being shut down. -/
def isCall : Turn → Bool
  | accept _ | reap => true
  | _ => false

/-- Whether another client releases all commands. -/
def clears : Turn → Bool
  | other _ action _ => action.clears
  | _ => false

/-- In this turn the worker comes to its end, if it does so: its session has settled, or it crashes. -/
def Ends (id : WorkerId) (t : Turn) : Prop := (∃ lock outlet, t = .settle id lock outlet) ∨ t = .crash id

end Turn

/-- The entry that another client commits in a turn. -/
def commitOfOther? (v : Service) : Turn → Option Entry
  | .other lock action _ => (⟨v.host, lock, action⟩ : Host.Move).commit?
  | _ => none

/-- Other clients commit nothing in these turns. -/
def Undisturbed (v : Service) : List Turn → Prop
  | [] => True
  | t :: rest => v.commitOfOther? t = none ∧ (v.turn t).Undisturbed rest

/-! ## Sessions and workers -/

variable {v : Service}

/-- The gate keeps its limit, and a session under way has a worker that runs. -/
structure WF (v : Service) : Prop where
  gate : v.gate.WF
  running_of_session : ∀ id live, v.host.sessions id = some live → id ∈ v.gate.workers.running

theorem ofConfig_wf (c : Config) (store : Store) : (ofConfig c store).WF := by
  constructor
  · exact ⟨Workers.new_wf, Nat.zero_le _⟩
  · rintro id live h
    cases h

/-- An action leaves the sessions of others. -/
theorem sessions_act_of_ne {lock : Lock} {action : Host.Action} {id : WorkerId} (h : action.client ≠ .session id) :
    (v.act lock action).host.sessions id = v.host.sessions id :=
  Host.Move.sessions_after_of_ne ⟨v.host, lock, action⟩ h

theorem sessions_act_of_session {lock : Lock} {action : Host.Action} {id other : WorkerId}
    (hc : action.client = .session id) (h : other ≠ id) :
    (v.act lock action).host.sessions other = v.host.sessions other := by
  refine sessions_act_of_ne ?_
  rw [hc]
  simpa using Ne.symm h

theorem finish_running (v : Service) (id : WorkerId) :
    (v.finish id).gate.workers.running = v.gate.workers.running.erase id := Workers.finish_running _ _

theorem sessions_finish_self (v : Service) (id : WorkerId) : (v.finish id).host.sessions id = none := if_pos rfl

theorem sessions_finish_of_ne {id other : WorkerId} (h : other ≠ id) :
    (v.finish id).host.sessions other = v.host.sessions other := if_neg h

/-- Only the other sessions matter for a worker that comes to its end. -/
theorem finish_wf_of_ne {id : WorkerId} (hgate : v.gate.WF)
    (hothers : ∀ other live, other ≠ id → v.host.sessions other = some live → other ∈ v.gate.workers.running) :
    (v.finish id).WF := by
  constructor
  · exact Gate.finish_wf hgate id
  · intro other live hlive
    rw [finish_running]
    by_cases ho : other = id
    · subst ho
      rw [sessions_finish_self] at hlive; cases hlive
    · rw [sessions_finish_of_ne ho] at hlive
      exact (List.mem_erase_of_ne ho).2 (hothers other live ho hlive)

theorem finish_wf (h : v.WF) (id : WorkerId) : (v.finish id).WF :=
  finish_wf_of_ne h.gate fun other live _ hlive => h.running_of_session other live hlive

theorem act_wf_of_foreign (h : v.WF) (lock : Lock) {action : Host.Action} (hf : ∀ id, action.client ≠ .session id) :
    (v.act lock action).WF := by
  refine ⟨h.gate, fun id live hlive => ?_⟩
  rw [sessions_act_of_ne (hf id)] at hlive
  exact h.running_of_session id live hlive

theorem hear_eq_of_none {id : WorkerId} (h : v.host.sessions id = none) (a : Session.Arrival) : v.hear id a = v := by
  unfold hear act Host.step
  simp only [h]

theorem settle_eq_of_none {id : WorkerId} (h : v.host.sessions id = none) (lock : Lock) (outlet : Outlet) :
    v.settle id lock outlet = (v, none) := by
  unfold settle Host.step
  simp only [h]

/-- A session settles, and its worker comes to its end, where it has stopped receiving; else nothing is done. -/
theorem settle_cases (v : Service) (id : WorkerId) (lock : Lock) (outlet : Outlet) :
    (v.settle id lock outlet).1 = (v.act lock (.settle id outlet)).finish id ∨ (v.settle id lock outlet).1 = v := by
  unfold settle act
  split
  · rename_i heq
    rw [heq]
    exact Or.inl rfl
  · exact Or.inr rfl

/-- A call for a peer starts one worker with its session, which may end at once, or it changes no more than who is
tracked. -/
theorem accept_cases (h : v.WF) (refused : Option Fault) :
    ∃ gate : Gate, gate.WF ∧
      ((∃ id, id ∉ v.gate.workers.tracked ∧ gate.workers.running = v.gate.workers.running ++ [id] ∧
        ((v.accept refused).1 = ({ v with gate := gate } : Service).act .free (.startSession id v.settings) ∨
          (v.accept refused).1 =
            (({ v with gate := gate } : Service).act .free (.startSession id v.settings)).finish id)) ∨
      gate.workers.running = v.gate.workers.running ∧ (v.accept refused).1 = { v with gate := gate }) := by
  refine ⟨(v.gate.enter refused).1, (Gate.enterAmid_wf h.gate refused {}).1, ?_⟩
  rcases Gate.enter_cases h.gate refused with ⟨id, hanswer, hnew, hrunning⟩ | ⟨hanswer, hrunning⟩
  · refine Or.inl ⟨id, hnew, hrunning, ?_⟩
    have henter : v.gate.enter refused = ((v.gate.enter refused).1, .ok (some id)) := Prod.ext rfl hanswer
    unfold accept
    rw [henter]
    dsimp only
    split
    · exact Or.inl rfl
    · exact Or.inr rfl
  · refine Or.inr ⟨hrunning, ?_⟩
    unfold accept
    split
    · rename_i gate id heq
      exact absurd (congrArg Prod.snd heq) (hanswer id)
    · rename_i gate answer _ heq
      rw [heq]

theorem act_startSession_wf {gate : Gate} {id : WorkerId} (h : v.WF) (hgate : gate.WF)
    (hrunning : gate.workers.running = v.gate.workers.running ++ [id]) :
    (({ v with gate := gate } : Service).act .free (.startSession id v.settings)).WF := by
  refine ⟨hgate, fun other live hlive => ?_⟩
  show other ∈ gate.workers.running
  rw [hrunning]
  by_cases ho : other = id
  · subst ho
    exact List.mem_append_right _ (List.mem_singleton_self other)
  · rw [sessions_act_of_session rfl ho] at hlive
    exact List.mem_append_left _ (h.running_of_session other live hlive)

theorem turn_wf (h : v.WF) (t : Turn) : (v.turn t).WF := by
  cases t with
  | accept refused =>
    obtain ⟨gate, hgate, ⟨id, -, hrunning, heq | heq⟩ | ⟨hrunning, heq⟩⟩ := accept_cases h refused
    · show (v.accept refused).1.WF
      rw [heq]
      exact act_startSession_wf h hgate hrunning
    · show (v.accept refused).1.WF
      rw [heq]
      exact finish_wf (act_startSession_wf h hgate hrunning) id
    · show (v.accept refused).1.WF
      rw [heq]
      refine ⟨hgate, fun id live hlive => ?_⟩
      show id ∈ gate.workers.running
      rw [hrunning]
      exact h.running_of_session id live hlive
  | reap => exact ⟨Gate.reap_wf h.gate, h.running_of_session⟩
  | hear id a =>
    cases hs : v.host.sessions id with
    | none =>
      show (v.hear id a).WF
      rw [hear_eq_of_none hs]
      exact h
    | some live₀ =>
      refine ⟨h.gate, fun other live hlive => ?_⟩
      by_cases ho : other = id
      · subst ho
        exact h.running_of_session other live₀ hs
      · refine h.running_of_session other live ?_
        rw [← hlive]
        exact (sessions_act_of_session rfl ho).symm
  | settle id lock outlet =>
    show (v.settle id lock outlet).1.WF
    rcases v.settle_cases id lock outlet with heq | heq
    · rw [heq]
      refine finish_wf_of_ne h.gate fun other live ho hlive => ?_
      rw [sessions_act_of_session rfl ho] at hlive
      exact h.running_of_session other live hlive
    · rw [heq]
      exact h
  | crash id => exact finish_wf h id
  | other lock action foreign => exact act_wf_of_foreign h lock foreign

theorem run_wf (turns : List Turn) : ∀ {v : Service}, v.WF → (v.run turns).WF := by
  induction turns with
  | nil => exact id
  | cons t rest ih => exact fun h => ih (turn_wf h t)

/-- A worker that runs goes on running, unless it comes to its end in this turn. -/
theorem running_turn (h : v.WF) {id : WorkerId} (hid : id ∈ v.gate.workers.running) (t : Turn) :
    id ∈ (v.turn t).gate.workers.running ∨ t.Ends id := by
  have herase : ∀ {other : WorkerId} {running : List WorkerId}, id ≠ other → id ∈ running → id ∈ running.erase other :=
    fun hne hmem => (List.mem_erase_of_ne hne).2 hmem
  cases t with
  | accept refused =>
    refine Or.inl ?_
    show id ∈ (v.accept refused).1.gate.workers.running
    obtain ⟨gate, -, ⟨new, hnew, hrunning, heq⟩ | ⟨hrunning, heq⟩⟩ := accept_cases h refused
    · have hin : id ∈ gate.workers.running := by
        rw [hrunning]
        exact List.mem_append_left _ hid
      have hne : id ≠ new := by
        rintro rfl
        exact hnew (h.gate.workers.mem_tracked_of_running hid)
      rcases heq with heq | heq
      · rw [heq]
        exact hin
      · rw [heq, finish_running]
        exact herase hne hin
    · rw [heq]
      show id ∈ gate.workers.running
      rw [hrunning]
      exact hid
  | settle other lock outlet =>
    by_cases ho : id = other
    · subst ho
      exact Or.inr (Or.inl ⟨lock, outlet, rfl⟩)
    · refine Or.inl ?_
      show id ∈ (v.settle other lock outlet).1.gate.workers.running
      rcases v.settle_cases other lock outlet with heq | heq
      · rw [heq, finish_running]
        exact herase ho hid
      · rw [heq]
        exact hid
  | crash other =>
    by_cases ho : id = other
    · subst ho
      exact Or.inr (Or.inr rfl)
    · refine Or.inl ?_
      show id ∈ (v.finish other).gate.workers.running
      rw [finish_running]
      exact herase ho hid
  | reap => exact Or.inl hid
  | hear other a => exact Or.inl hid
  | other lock action foreign => exact Or.inl hid

/-! ## No worker runs -/

theorem sessions_of_idle (h : v.WF) (hidle : v.gate.workers.running = []) (id : WorkerId) :
    v.host.sessions id = none := by
  cases hs : v.host.sessions id with
  | none => rfl
  | some live =>
    have hid := h.running_of_session id live hs
    rw [hidle] at hid
    cases hid

/-- Where no worker runs, only the other clients can do something. -/
theorem turn_of_idle (h : v.WF) (hidle : v.gate.workers.running = []) {t : Turn} (ht : t.isCall = false) :
    (v.turn t = v ∧ t.clears = false) ∨ ∃ lock action foreign, t = .other lock action foreign := by
  cases t with
  | accept | reap => cases ht
  | hear id a => exact Or.inl ⟨hear_eq_of_none (sessions_of_idle h hidle id) a, rfl⟩
  | settle id lock outlet =>
    exact Or.inl ⟨congrArg Prod.fst (settle_eq_of_none (sessions_of_idle h hidle id) lock outlet), rfl⟩
  | crash id =>
    refine Or.inl ⟨?_, rfl⟩
    have hsessions : Host.setAt v.host.sessions id none = v.host.sessions := by
      funext other
      unfold Host.setAt
      split
      · exact (sessions_of_idle h hidle other).symm
      · rfl
    have hworkers : v.gate.workers.finish id = v.gate.workers := if_neg (by rw [hidle]; simp)
    show ({ v with
        host := { v.host with sessions := Host.setAt v.host.sessions id none }
        gate := { v.gate with workers := v.gate.workers.finish id } } : Service) = v
    rw [hworkers, hsessions]
  | other lock action foreign => exact Or.inr ⟨lock, action, foreign, rfl⟩

theorem gate_turn_of_idle (h : v.WF) (hidle : v.gate.workers.running = []) {t : Turn} (ht : t.isCall = false) :
    (v.turn t).gate = v.gate := by
  rcases turn_of_idle h hidle ht with ⟨heq, -⟩ | ⟨lock, action, foreign, rfl⟩
  · rw [heq]
  · rfl

theorem log_turn_of_idle (h : v.WF) (hidle : v.gate.workers.running = []) {t : Turn} (ht : t.isCall = false)
    (hc : v.commitOfOther? t = none) : (v.turn t).log = if t.clears then v.log.clear else v.log := by
  rcases turn_of_idle h hidle ht with ⟨heq, hclears⟩ | ⟨lock, action, foreign, rfl⟩
  · rw [heq, hclears]; rfl
  · have hstore := Host.Move.store_after ⟨v.host, lock, action⟩
    rw [show Host.Move.commit? ⟨v.host, lock, action⟩ = none from hc] at hstore
    show (Host.Move.after ⟨v.host, lock, action⟩).store.log = if action.clears then v.log.clear else v.log
    rw [hstore]
    cases action.clears <;> rfl

/-- Where no worker runs, none will. If the others commit nothing, then an empty log stays empty, and a log that they do
not clear either stays as it is. -/
theorem run_of_idle (turns : List Turn) :
    ∀ {v : Service}, v.WF → v.gate.workers.running = [] → (∀ t ∈ turns, t.isCall = false) →
      (v.run turns).gate = v.gate ∧
      (v.Undisturbed turns → (v.log.toList = [] → (v.run turns).log.toList = []) ∧
        ((∀ t ∈ turns, t.clears = false) → (v.run turns).log = v.log)) := by
  induction turns with
  | nil => exact fun _ _ _ => ⟨rfl, fun _ => ⟨id, fun _ => rfl⟩⟩
  | cons t rest ih =>
    intro v h hidle hcalls
    obtain ⟨hcall, hrest⟩ := List.forall_mem_cons.1 hcalls
    have hgate := gate_turn_of_idle h hidle hcall
    obtain ⟨hsame, hlog⟩ := ih (turn_wf h t) (by rw [hgate]; exact hidle) hrest
    refine ⟨hsame.trans hgate, fun hund => ?_⟩
    obtain ⟨hempty, hkept⟩ := hlog hund.2
    have hafter := log_turn_of_idle h hidle hcall hund.1
    constructor
    · intro hnil
      apply hempty
      rw [hafter]
      split
      · exact Ring.toList_clear _
      · exact hnil
    · intro hclears
      obtain ⟨hfirst, hothers⟩ := List.forall_mem_cons.1 hclears
      refine (hkept hothers).trans (hafter.trans ?_)
      rw [hfirst]; rfl

/-! ## Workers that end -/

/-- A worker that runs comes to its end in one of these turns, as its session settles or as it crashes. -/
def EndsIn (v : Service) (id : WorkerId) (turns : List Turn) : Prop :=
  ∃ before t after, turns = before ++ t :: after ∧ t.Ends id ∧ id ∈ (v.run before).gate.workers.running ∧
    id ∉ ((v.run before).turn t).gate.workers.running

theorem endsIn_of_run {id : WorkerId} (turns : List Turn) :
    ∀ {v : Service}, v.WF → id ∈ v.gate.workers.running → id ∉ (v.run turns).gate.workers.running →
      v.EndsIn id turns := by
  induction turns with
  | nil => exact fun _ hid hend => absurd hid hend
  | cons t rest ih =>
    intro v h hid hend
    by_cases hnext : id ∈ (v.turn t).gate.workers.running
    · obtain ⟨before, t', after, rfl, ht', hbefore, hafter⟩ := ih (turn_wf h t) hnext hend
      exact ⟨t :: before, t', after, rfl, ht', hbefore, hafter⟩
    · have ht : t.Ends id := (running_turn h hid t).resolve_left hnext
      exact ⟨[], t, rest, rfl, ht, hid, hnext⟩

/-! ## The end of a service -/

/-- The joining waits for all workers that are tracked, and so for all that run. -/
theorem joinAll?_eq_some_iff (h : v.WF) {joined : Service} :
    v.joinAll? = some joined ↔ v.gate.workers.running = [] ∧
      joined = { v with gate := { v.gate with workers := { nextId := v.gate.workers.nextId } } } := by
  unfold joinAll?
  rw [Option.map_eq_some_iff]
  constructor
  · rintro ⟨⟨workers, ids⟩, hworkers, rfl⟩
    obtain ⟨hidle, rfl, -⟩ := (Workers.joinAll?_eq_some_iff h.gate.workers).1 hworkers
    exact ⟨hidle, rfl⟩
  · rintro ⟨hidle, rfl⟩
    exact ⟨_, (Workers.joinAll?_eq_some_iff h.gate.workers).2 ⟨hidle, rfl, rfl⟩, rfl⟩

theorem joinAll?_wf (h : v.WF) {joined : Service} (hjoin : v.joinAll? = some joined) : joined.WF := by
  obtain ⟨hidle, rfl⟩ := (joinAll?_eq_some_iff h).1 hjoin
  refine ⟨⟨Workers.idle_wf _, Nat.zero_le _⟩, fun id live hlive => ?_⟩
  change v.host.sessions id = some live at hlive
  rw [sessions_of_idle h hidle] at hlive
  cases hlive

theorem release_wf (h : v.WF) : v.release.1.WF := act_wf_of_foreign h .free fun _ hc => by cases hc

/-- A service can be shut down just where no worker runs. -/
theorem isSome_shutdown? (h : v.WF) : v.shutdown?.isSome = true ↔ v.gate.workers.running = [] := by
  unfold shutdown?
  rw [Option.isSome_map, Option.isSome_iff_exists]
  constructor
  · rintro ⟨joined, hjoin⟩
    exact ((joinAll?_eq_some_iff h).1 hjoin).1
  · intro hidle
    exact ⟨_, (joinAll?_eq_some_iff h).2 ⟨hidle, rfl⟩⟩

end Service

end LineRing
