/-
A server that has stopped leaves nothing behind. Main statement: once the four steps of its end are done, no worker
runs, none is tracked, the ticker has stopped, and nothing but another client of the store can put an entry into the log
any more; and each worker that was ever started came to its end before.

The invariant, `Server.WF`, says what each step has established: the ticker is quiet from the second step on, and no
worker runs from the third on. The third step waits for the workers that are tracked only; that these are all that run
is the account of the workers (`Workers.WF`). Since sessions have workers that run, what is left is to the other clients.
-/
import LineRing.Proofs.Service.Turns
import LineRing.Server

namespace LineRing

namespace Server

/-! ## What happens around a server -/

/-- An event of the server, or an action of another client of its store. -/
inductive Happening where
  | own (event : Event)
  | other (lock : Lock) (action : Host.Action) (foreign : ∀ id, action.client ≠ .session id)

/-- What happens next; none where it cannot happen. -/
def happen? (server : Server) : Happening → Option Server
  | .own event => server.step? event
  | .other lock action _ => some { server with service := server.service.act lock action }

def runAmid? (server : Server) : List Happening → Option Server
  | [] => some server
  | h :: rest => (server.happen? h).bind fun next => next.runAmid? rest

theorem runAmid?_own (events : List Event) :
    ∀ server : Server, server.runAmid? (events.map .own) = server.run? events := by
  induction events with
  | nil => exact fun _ => rfl
  | cons event rest ih =>
    intro server
    show (server.step? event).bind _ = (server.step? event).bind _
    exact congrArg _ (funext ih)

/-- The entry that another client commits; the ticker is the server's own. -/
def commitOfOther? (server : Server) : Happening → Option Entry
  | .own _ => none
  | .other lock action _ => (⟨server.service.host, lock, action⟩ : Host.Move).commit?

/-- Other clients commit nothing meanwhile. -/
def Undisturbed (server : Server) : List Happening → Prop
  | [] => True
  | h :: rest => server.commitOfOther? h = none ∧ ∀ next, server.happen? h = some next → next.Undisturbed rest

theorem undisturbed_own (events : List Event) : ∀ server : Server, server.Undisturbed (events.map .own) := by
  induction events with
  | nil => exact fun _ => trivial
  | cons event rest ih => exact fun _ => ⟨rfl, fun next _ => ih next⟩

namespace Happening

/-- What happens as a turn of the service; none where the server takes a step towards its end. -/
def turn? : Happening → Option Service.Turn
  | own (.accept refused) => some (.accept refused)
  | own .reap => some .reap
  | own (.hear id a) => some (.hear id a)
  | own (.settle id lock outlet) => some (.settle id lock outlet)
  | own (.crash id) => some (.crash id)
  | own (.tick time zone lock) => some (.other lock (.commit (Stamp.entry time zone)) fun _ h => by cases h)
  | own .close | own .quiet | own .join | own .release => none
  | other lock action foreign => some (.other lock action foreign)

/-- The worker comes to its end here, if it does so: its session has settled, or it crashes. -/
def Ends (id : WorkerId) (h : Happening) : Prop :=
  (∃ lock outlet, h = .own (.settle id lock outlet)) ∨ h = .own (.crash id)

theorem ends_of_turn? {h : Happening} {t : Service.Turn} {id : WorkerId} (ht : h.turn? = some t) (he : t.Ends id) :
    h.Ends id := by
  rcases he with ⟨lock, outlet, rfl⟩ | rfl
  · cases h with
    | other => cases ht
    | own event =>
      cases event <;> cases ht
      exact Or.inl ⟨lock, outlet, rfl⟩
  · cases h with
    | other => cases ht
    | own event =>
      cases event <;> cases ht
      exact Or.inr rfl

end Happening

/-! ## One step -/

/-- How many of the steps of its end a server has taken. -/
def Phase.rank : Phase → Nat
  | serving => 0
  | closing => 1
  | joining => 2
  | releasing => 3
  | stopped => 4

theorem eq_stopped_of_rank {phase : Phase} (h : 4 ≤ phase.rank) : phase = .stopped := by
  cases phase with
  | stopped => rfl
  | serving | closing | joining | releasing => exact absurd h (by decide)

variable {server next : Server}

/-- What happens is a turn of the service, or one of the four steps. The service takes calls only while the server
serves, and only a ticker that runs commits on its own. -/
theorem happen?_cases {h : Happening} (hh : server.happen? h = some next) :
    (∃ t, h.turn? = some t ∧ next = { server with service := server.service.turn t } ∧
      (t.isCall = true → server.phase = .serving) ∧
      (server.ticking = false → server.service.commitOfOther? t = server.commitOfOther? h)) ∨
    server.phase = .serving ∧ next = { server with phase := .closing } ∨
    server.phase = .closing ∧ next = { server with ticking := false, phase := .joining } ∨
    (server.phase = .joining ∧ ∃ joined, server.service.joinAll? = some joined ∧
      next = { server with service := joined, phase := .releasing }) ∨
    server.phase = .releasing ∧ next = { server with service := server.service.release.1, phase := .stopped } := by
  cases h with
  | other lock action foreign =>
    cases hh
    exact Or.inl ⟨_, rfl, rfl, nofun, fun _ => rfl⟩
  | own event =>
    change server.step? event = some next at hh
    cases event with
    | accept refused =>
      obtain ⟨hphase, heq⟩ := Option.ite_none_right_eq_some.1 hh
      exact Or.inl ⟨_, rfl, (Option.some.inj heq).symm, fun _ => hphase, fun _ => rfl⟩
    | reap =>
      obtain ⟨hphase, heq⟩ := Option.ite_none_right_eq_some.1 hh
      exact Or.inl ⟨_, rfl, (Option.some.inj heq).symm, fun _ => hphase, fun _ => rfl⟩
    | hear | settle | crash =>
      cases hh
      exact Or.inl ⟨_, rfl, rfl, nofun, fun _ => rfl⟩
    | tick time zone lock =>
      obtain ⟨hticking, heq⟩ := Option.ite_none_right_eq_some.1 hh
      refine Or.inl ⟨_, rfl, (Option.some.inj heq).symm, nofun, fun hquiet => ?_⟩
      rw [hticking] at hquiet; cases hquiet
    | close =>
      obtain ⟨hphase, heq⟩ := Option.ite_none_right_eq_some.1 hh
      exact Or.inr (Or.inl ⟨hphase, (Option.some.inj heq).symm⟩)
    | quiet =>
      obtain ⟨hphase, heq⟩ := Option.ite_none_right_eq_some.1 hh
      exact Or.inr (Or.inr (Or.inl ⟨hphase, (Option.some.inj heq).symm⟩))
    | join =>
      obtain ⟨hphase, hmap⟩ := Option.ite_none_right_eq_some.1 hh
      obtain ⟨joined, hjoin, heq⟩ := Option.map_eq_some_iff.1 hmap
      exact Or.inr (Or.inr (Or.inr (Or.inl ⟨hphase, joined, hjoin, heq.symm⟩)))
    | release =>
      obtain ⟨hphase, heq⟩ := Option.ite_none_right_eq_some.1 hh
      exact Or.inr (Or.inr (Or.inr (Or.inr ⟨hphase, (Option.some.inj heq).symm⟩)))

/-- What the steps that a server has taken have established. -/
structure WF (server : Server) : Prop where
  service : server.service.WF
  quiet : 2 ≤ server.phase.rank → server.ticking = false
  joined : 3 ≤ server.phase.rank →
    server.service.gate.workers.running = [] ∧ server.service.gate.workers.tracked = []

theorem happen?_wf (hwf : server.WF) {h : Happening} (hh : server.happen? h = some next) :
    next.WF ∧ server.phase.rank ≤ next.phase.rank := by
  rcases happen?_cases hh with ⟨t, -, rfl, hcall, -⟩ | ⟨hphase, rfl⟩ | ⟨hphase, rfl⟩ | ⟨hphase, joined, hjoin, rfl⟩ |
    ⟨hphase, rfl⟩
  · refine ⟨⟨Service.turn_wf hwf.service t, hwf.quiet, fun hrank => ?_⟩, Nat.le_refl _⟩
    change 3 ≤ server.phase.rank at hrank
    obtain ⟨hidle, htracked⟩ := hwf.joined hrank
    have hno : t.isCall = false := by
      rw [Bool.eq_false_iff]
      intro ht
      rw [hcall ht] at hrank
      exact absurd hrank (by decide)
    have hgate := Service.gate_turn_of_idle hwf.service hidle hno
    show (server.service.turn t).gate.workers.running = [] ∧ (server.service.turn t).gate.workers.tracked = []
    rw [hgate]
    exact ⟨hidle, htracked⟩
  · rw [hphase]
    refine ⟨⟨hwf.service, ?_, ?_⟩, show Phase.serving.rank ≤ Phase.closing.rank by decide⟩
    · exact fun hrank => absurd hrank (show ¬ 2 ≤ Phase.closing.rank by decide)
    · exact fun hrank => absurd hrank (show ¬ 3 ≤ Phase.closing.rank by decide)
  · rw [hphase]
    refine ⟨⟨hwf.service, fun _ => rfl, ?_⟩, show Phase.closing.rank ≤ Phase.joining.rank by decide⟩
    exact fun hrank => absurd hrank (show ¬ 3 ≤ Phase.joining.rank by decide)
  · have hquiet := hwf.quiet (by rw [hphase]; decide)
    rw [hphase]
    refine ⟨⟨Service.joinAll?_wf hwf.service hjoin, fun _ => hquiet, fun _ => ?_⟩,
      show Phase.joining.rank ≤ Phase.releasing.rank by decide⟩
    -- the joining has waited for all workers that are tracked, and those that run are
    obtain ⟨-, rfl⟩ := (Service.joinAll?_eq_some_iff hwf.service).1 hjoin
    exact ⟨rfl, rfl⟩
  · have hquiet := hwf.quiet (by rw [hphase]; decide)
    have hjoined := hwf.joined (by rw [hphase]; decide)
    rw [hphase]
    exact ⟨⟨Service.release_wf hwf.service, fun _ => hquiet, fun _ => hjoined⟩,
      show Phase.releasing.rank ≤ Phase.stopped.rank by decide⟩

/-- A server that has stopped has an empty log, and keeps it empty unless another client commits. -/
theorem log_happen? (hwf : server.WF) (hempty : server.phase = .stopped → server.service.log.toList = [])
    {h : Happening} (hc : server.commitOfOther? h = none) (hh : server.happen? h = some next)
    (hstop : next.phase = .stopped) : next.service.log.toList = [] := by
  rcases happen?_cases hh with ⟨t, -, rfl, hcall, hcommit⟩ | ⟨-, rfl⟩ | ⟨-, rfl⟩ | ⟨-, joined, -, rfl⟩ | ⟨-, rfl⟩
  · change server.phase = .stopped at hstop
    obtain ⟨hidle, -⟩ := hwf.joined (by rw [hstop]; decide)
    have hquiet := hwf.quiet (by rw [hstop]; decide)
    have hno : t.isCall = false := by
      rw [Bool.eq_false_iff]
      intro ht
      rw [hcall ht] at hstop; cases hstop
    have hlog := Service.log_turn_of_idle hwf.service hidle hno ((hcommit hquiet).trans hc)
    show (server.service.turn t).log.toList = []
    rw [hlog]
    split
    · exact Ring.toList_clear _
    · exact hempty hstop
  · cases hstop
  · cases hstop
  · cases hstop
  · exact Ring.toList_clear _

/-! ## Runs -/

theorem new_wf (c : Config) (store : Store) (ticking : Bool) :
    ({ service := .ofConfig c store, ticking := ticking } : Server).WF where
  service := Service.ofConfig_wf c store
  quiet hrank := absurd hrank (show ¬ 2 ≤ Phase.serving.rank by decide)
  joined hrank := absurd hrank (show ¬ 3 ≤ Phase.serving.rank by decide)

/-- A server that serves can take the four steps of its end one after the other just where no worker runs. -/
theorem run?_stopEvents (hwf : server.WF) (hphase : server.phase = .serving) :
    (∃ last, server.run? stopEvents = some last ∧ last.phase = .stopped) ↔
      server.service.gate.workers.running = [] := by
  obtain ⟨service, ticking, phase⟩ := server
  obtain rfl : phase = .serving := hphase
  have hrun : ({ service, ticking } : Server).run? stopEvents =
      service.joinAll?.bind fun joined => some { service := joined.release.1, phase := .stopped } := by
    show ((service.joinAll?.map _).bind _) = _
    rw [Option.bind_map]
    rfl
  rw [hrun]
  constructor
  · rintro ⟨last, hlast, -⟩
    obtain ⟨joined, hjoin, -⟩ := Option.bind_eq_some_iff.1 hlast
    exact ((Service.joinAll?_eq_some_iff hwf.service).1 hjoin).1
  · intro hidle
    rw [(Service.joinAll?_eq_some_iff hwf.service).2 ⟨hidle, rfl⟩]
    exact ⟨_, rfl, rfl⟩

theorem runAmid?_append (a b : List Happening) :
    ∀ server : Server, server.runAmid? (a ++ b) = (server.runAmid? a).bind fun next => next.runAmid? b := by
  induction a with
  | nil => exact fun _ => rfl
  | cons h rest ih =>
    intro server
    show (server.happen? h).bind _ = ((server.happen? h).bind _).bind _
    rw [Option.bind_assoc]
    exact congrArg _ (funext ih)

theorem runAmid?_wf (rest : List Happening) :
    ∀ {server last : Server}, server.WF → server.runAmid? rest = some last →
      last.WF ∧ server.phase.rank ≤ last.phase.rank := by
  induction rest with
  | nil =>
    intro server last hwf hrun
    cases hrun
    exact ⟨hwf, Nat.le_refl _⟩
  | cons h rest ih =>
    intro server last hwf hrun
    obtain ⟨next, hnext, hrest⟩ := Option.bind_eq_some_iff.1 hrun
    obtain ⟨hwf', hle⟩ := happen?_wf hwf hnext
    obtain ⟨hlast, hle'⟩ := ih hwf' hrest
    exact ⟨hlast, Nat.le_trans hle hle'⟩

theorem log_runAmid? (rest : List Happening) :
    ∀ {server last : Server}, server.WF → (server.phase = .stopped → server.service.log.toList = []) →
      server.Undisturbed rest → server.runAmid? rest = some last → last.phase = .stopped →
      last.service.log.toList = [] := by
  induction rest with
  | nil =>
    intro server last _ hempty _ hrun hstop
    cases hrun
    exact hempty hstop
  | cons h rest ih =>
    intro server last hwf hempty hund hrun hstop
    obtain ⟨next, hnext, hrest⟩ := Option.bind_eq_some_iff.1 hrun
    exact ih (happen?_wf hwf hnext).1 (log_happen? hwf hempty hund.1 hnext) (hund.2 next hnext) hrest hstop

/-- A worker that runs comes to its end amid these happenings, as its session settles or as it crashes. -/
def EndsIn (server : Server) (id : WorkerId) (rest : List Happening) : Prop :=
  ∃ before h after s s', rest = before ++ h :: after ∧ h.Ends id ∧ server.runAmid? before = some s ∧
    s.happen? h = some s' ∧ id ∈ s.service.gate.workers.running ∧ id ∉ s'.service.gate.workers.running

/-- Only the end of a worker takes it from those that run; the joining waits for that. -/
theorem running_happen? (hwf : server.WF) {id : WorkerId} (hid : id ∈ server.service.gate.workers.running)
    {h : Happening} (hh : server.happen? h = some next) : id ∈ next.service.gate.workers.running ∨ h.Ends id := by
  rcases happen?_cases hh with ⟨t, ht, rfl, -, -⟩ | ⟨-, rfl⟩ | ⟨-, rfl⟩ | ⟨-, joined, hjoin, rfl⟩ | ⟨-, rfl⟩
  · exact (Service.running_turn hwf.service hid t).imp_right (Happening.ends_of_turn? ht)
  · exact Or.inl hid
  · exact Or.inl hid
  · obtain ⟨hidle, -⟩ := (Service.joinAll?_eq_some_iff hwf.service).1 hjoin
    rw [hidle] at hid; cases hid
  · exact Or.inl hid

theorem endsIn_of_runAmid? {id : WorkerId} (rest : List Happening) :
    ∀ {server last : Server}, server.WF → server.runAmid? rest = some last →
      id ∈ server.service.gate.workers.running → id ∉ last.service.gate.workers.running → server.EndsIn id rest := by
  induction rest with
  | nil =>
    intro server last _ hrun hid hend
    cases hrun
    exact absurd hid hend
  | cons h rest ih =>
    intro server last hwf hrun hid hend
    obtain ⟨next, hnext, hrest⟩ := Option.bind_eq_some_iff.1 hrun
    by_cases hmem : id ∈ next.service.gate.workers.running
    · obtain ⟨before, h', after, s, s', rfl, hends, hbefore, hs', hin, hout⟩ :=
        ih (happen?_wf hwf hnext).1 hrest hmem hend
      refine ⟨h :: before, h', after, s, s', rfl, hends, ?_, hs', hin, hout⟩
      show (server.happen? h).bind _ = some s
      rw [hnext]
      exact hbefore
    · exact ⟨[], h, rest, server, next, rfl, (running_happen? hwf hid hnext).resolve_left hmem, rfl, hnext, hid, hmem⟩

/-! ## The main statement -/

/-- Nothing is committed once a server has stopped. Take any run of a new server, among any actions of other clients of
its store, that leads to where the server has stopped, and on from there. It remains stopped; no worker runs, none is
active, and the ticker is quiet. Unless another client commits, the log is empty, then and ever after. And each worker
that ran at any time came to its end before the server had stopped, as its session settled or as it crashed.

The same holds of a service that is shut down on its own, from when on it takes no more peers. The shutdown waits while
a worker runs, and no longer. The number that it gives is that of the commands which were retained at any time since no
worker ran, unless they were released by another client. -/
theorem nothing_committed_after_stop (c : Config) (store : Store) :
    (∀ (ticking : Bool) (happenings more : List Happening) (server later : Server),
      let new : Server := { service := .ofConfig c store, ticking := ticking }
      new.runAmid? happenings = some server → server.phase = .stopped → server.runAmid? more = some later →
      (later.phase = .stopped ∧ later.service.gate.workers.running = [] ∧ later.service.active = 0 ∧
        later.ticking = false) ∧
      (new.Undisturbed (happenings ++ more) → later.service.log.toList = []) ∧
      ∀ a b amid, happenings = a ++ b → new.runAmid? a = some amid →
        ∀ id ∈ amid.service.gate.workers.running, amid.EndsIn id b) ∧
    (∀ turns rest more : List Service.Turn,
      let begun := (Service.ofConfig c store).run turns
      let last := begun.run rest
      (∀ t ∈ rest ++ more, t.isCall = false) →
      (last.shutdown?.isSome = true ↔ last.gate.workers.running = []) ∧
      ∀ ended released, last.shutdown? = some (ended, released) →
        let later := ended.run more
        (later.gate.workers.running = [] ∧ later.active = 0) ∧
        (ended.Undisturbed more → later.log.toList = []) ∧
        (∀ id ∈ begun.gate.workers.running, begun.EndsIn id rest) ∧
        ∀ a b, rest = a ++ b → (begun.run a).gate.workers.running = [] → (begun.run a).Undisturbed b →
          (∀ t ∈ b, t.clears = false) → released = (begun.run a).log.count) := by
  constructor
  · intro ticking happenings more server later new hrun hstop hmore
    have hnew : new.WF := new_wf c store ticking
    obtain ⟨hserver, -⟩ := runAmid?_wf happenings hnew hrun
    obtain ⟨hlater, hrank⟩ := runAmid?_wf more hserver hmore
    have hstop' : later.phase = .stopped := eq_stopped_of_rank (by rw [hstop] at hrank; exact hrank)
    obtain ⟨hidle, htracked⟩ := hlater.joined (by rw [hstop']; decide)
    refine ⟨⟨hstop', hidle, ?_, hlater.quiet (by rw [hstop']; decide)⟩, ?_, ?_⟩
    · show later.service.gate.workers.tracked.length = 0
      rw [htracked]; rfl
    · intro hund
      refine log_runAmid? (happenings ++ more) hnew (fun h => by cases h) hund ?_ hstop'
      rw [runAmid?_append, hrun]
      exact hmore
    · rintro a b amid rfl ha id hid
      rw [runAmid?_append, ha] at hrun
      have hamid := (runAmid?_wf a hnew ha).1
      refine endsIn_of_runAmid? b hamid hrun hid ?_
      rw [(hserver.joined (by rw [hstop]; decide)).1]
      exact List.not_mem_nil
  · intro turns rest more begun last hcalls
    obtain ⟨hrest, hmore⟩ := List.forall_mem_append.1 hcalls
    have hbegun : begun.WF := Service.run_wf turns (Service.ofConfig_wf c store)
    have hlast : last.WF := Service.run_wf rest hbegun
    refine ⟨Service.isSome_shutdown? hlast, ?_⟩
    intro ended released hdown later
    obtain ⟨joined, hjoin, heq⟩ := Option.map_eq_some_iff.1 hdown
    have hjoined : joined.WF := Service.joinAll?_wf hlast hjoin
    obtain ⟨hidle, rfl⟩ := (Service.joinAll?_eq_some_iff hlast).1 hjoin
    obtain ⟨rfl, rfl⟩ := Prod.mk.inj heq
    obtain ⟨hgate, hlog⟩ := Service.run_of_idle more (Service.release_wf hjoined) rfl hmore
    refine ⟨⟨?_, ?_⟩, ?_, ?_, ?_⟩
    · exact congrArg (fun gate => gate.workers.running) hgate
    · exact congrArg Gate.active hgate
    · intro hund
      exact (hlog hund).1 (Ring.toList_clear _)
    · intro id hid
      refine Service.endsIn_of_run rest hbegun hid ?_
      show id ∉ last.gate.workers.running
      rw [hidle]
      exact List.not_mem_nil
    · rintro a b rfl hquiet hund hclears
      have ha : (begun.run a).WF := Service.run_wf a hbegun
      have hb := (Service.run_of_idle b ha hquiet (List.forall_mem_append.1 hrest).2).2 hund
      have hsplit : last = (begun.run a).run b := List.foldl_append ..
      show last.log.count = (begun.run a).log.count
      rw [hsplit, hb.2 hclears]

/-- A session that commits after the ticker has stopped, and one that crashes; a handle is left with a draft. -/
theorem nothing_committed_after_stop_late_session :
    let c : Config := { capacity := 2 }
    let store : Store := { log := Ring.empty 2 }
    let new : Server := { service := .ofConfig c store, ticking := true }
    let events : List Event :=
      [.accept none, .accept none, .hear 1 (.bytes [97]), .close, .tick ⟨0, 0⟩ 0 .free, .quiet, .hear 1 (.bytes [10]),
        .settle 1 .free .accepting, .crash 2, .join, .release]
    let late : List Event := [.hear 1 (.bytes [99, 10]), .crash 2]
    let happenings : List Happening :=
      .other .free (.openHandle 0) nofun :: .other .free (.write 0 [98]) nofun :: events.map .own
    (∃ server later, new.runAmid? happenings = some server ∧ server.runAmid? (late.map .own) = some later ∧
      later.phase = .stopped ∧ later.service.log.toList = [] ∧ later.service.active = 0) ∧
    (((Service.ofConfig c store).run [.accept none]).run
      [.hear 1 (.bytes [97, 10]), .settle 1 .free .accepting, .crash 1]).shutdown?.map Prod.snd = some 1 := by
  intro c store new events late happenings
  obtain ⟨hserver, hservice⟩ := nothing_committed_after_stop c store
  constructor
  · have hphase : (new.runAmid? happenings).map Server.phase = some .stopped := by decide +kernel
    obtain ⟨server, hrun, hstop⟩ := Option.map_eq_some_iff.1 hphase
    have hlate : ((new.runAmid? happenings).bind fun server => server.runAmid? (late.map .own)).isSome := by
      decide +kernel
    rw [hrun] at hlate
    obtain ⟨later, hmore⟩ := Option.isSome_iff_exists.1 hlate
    obtain ⟨⟨hphase', -, hactive, -⟩, hlog, -⟩ := hserver true happenings (late.map .own) server later hrun hstop hmore
    have hund : new.Undisturbed (happenings ++ late.map .own) := by
      refine ⟨rfl, fun opened hopened => ⟨?_, fun next _ => ?_⟩⟩
      · cases hopened; rfl
      · show next.Undisturbed (events.map .own ++ late.map .own)
        rw [← List.map_append]
        exact undisturbed_own _ next
    exact ⟨server, later, hrun, hmore, hphase', hlog hund, hactive⟩
  · have hund : ∀ v : Service, v.Undisturbed [.crash 1] := fun _ => ⟨rfl, trivial⟩
    obtain ⟨hdone, hends⟩ :=
      hservice [.accept none] [.hear 1 (.bytes [97, 10]), .settle 1 .free .accepting, .crash 1] [] (by decide)
    obtain ⟨⟨ended, released⟩, hdown⟩ := Option.isSome_iff_exists.1 (hdone.2 (by decide +kernel))
    obtain ⟨-, -, -, hcount⟩ := hends ended released hdown
    have heq := hcount [.hear 1 (.bytes [97, 10]), .settle 1 .free .accepting] [.crash 1] rfl (by decide +kernel) (hund _)
      (by decide)
    rw [hdown]
    exact congrArg some (heq.trans (by decide +kernel))

end Server

end LineRing
