/-
Two ways to one place: a directive that a peer sends, and a seek through a handle. Main statement: on a host that has
come about in any way, both find the same place or fail alike, and a session sends what the handle reads from there to
the end (`handle_directive_eq_seekTo`).
-/
import LineRing.Proofs.Handle.Read
import LineRing.Proofs.Host.Order
import LineRing.Proofs.Session.Seek

namespace LineRing

namespace Host

/-- Whether actions of clients lead from a new store to the host. -/
def Reachable (host : Host) : Prop :=
  ∃ capacity store steps, Ring.create capacity = .ok store.log ∧ (run { store := store } steps).1 = host

theorem Reachable.wf {host : Host} (h : Reachable host) : host.store.log.WF := by
  obtain ⟨capacity, store, steps, hnew, rfl⟩ := h
  obtain ⟨_, hqueued⟩ := queued_run hnew steps
  exact hqueued.wf

theorem settle_seek_accepting {store : Store} {lock : Lock} (hlock : store.acquire lock = .ok ()) (chunk : Nat)
    (d : Directive) :
    (∃ failure, store.log.offsetOf d.address = .error failure ∧
      Session.settle Outlet.accepting.sink chunk lock store [] (.seek d) = (store, [], .error failure)) ∨
    (∃ offset t, store.log.offsetOf d.address = .ok offset ∧ t.accepted = store.log.bytes.drop offset ∧
      Session.settle Outlet.accepting.sink chunk lock store [] (.seek d) =
        (store, t, .ok (.sought offset t.accepted.length))) := by
  cases ho : store.log.offsetOf d.address with
  | error failure => exact Or.inl ⟨failure, rfl, Session.settle_seek_of_nowhere _ _ _ hlock ho⟩
  | ok offset =>
    have hstream := Outlet.stream_accepting store.log offset chunk []
    obtain ⟨hacc, hlen⟩ := Outlet.accepted_of_stream_eq_ok _ hstream
    refine Or.inr ⟨offset, _, rfl, hacc, ?_⟩
    rw [Session.settle_seek _ _ _ hlock ho, hstream, ← hlen]
    rfl

/-- Seeking through a session is seeking through a handle. Take a host that actions of its clients lead to, a
directive that a peer sends in any pieces, and a peer that takes everything. The session finds the place that any
handle moves to, if there is one, and sends what the handle then reads to the end, whatever its buffers are, which is
a byte at least; otherwise it fails as the handle does, and sends nothing. It leaves the store as it was. -/
theorem handle_directive_eq_seekTo {host : Host} (hhost : host.Reachable) (d : Directive) {sent : List Bytes}
    (hne : ∀ piece ∈ sent, piece ≠ []) (hsent : sent.flatten = d.encode) (session : Session)
    (hchunk : session.settings.chunk < 2 ^ 63) (hlimit : d.encode.length ≤ session.settings.commandLimit) {lock : Lock}
    (hlock : host.store.acquire lock = .ok ()) (h : Handle) :
    ∃ closed report,
      session.handle Outlet.accepting.sink lock host.store [] (Session.sending sent) = .ok (closed, report) ∧
      report.store = host.store ∧
      let moved := h.seekTo host.store lock d
      let reply := report.sink.accepted
      (∀ offset, (∃ n, report.result = .ok (.sought offset n)) ↔ moved.2 = .ok offset) ∧
      (∀ offset n, report.result = .ok (.sought offset n) → n = reply.length ∧ 1 ≤ n ∧
        ∀ sizes : List Nat, (∀ most ∈ sizes, 0 < most) →
          let read := moved.1.readWith host.store lock sizes
          (read.1.IsSpent host.store lock ↔ read.2 = .ok reply) ∧
          (reply.length < sizes.length → read.1.IsSpent host.store lock)) ∧
      (∀ failure, moved.2 = .error failure → report.result = .error failure ∧ report.sink = []) := by
  obtain ⟨closed, report, hrun, hsettle⟩ :=
    session.handle_directive hchunk Outlet.accepting.sink [] lock lock host.store hne hsent hlimit
  refine ⟨closed, report, hrun, ?_⟩
  rcases settle_seek_accepting hlock session.settings.chunk d with ⟨failure, ho, hs⟩ | ⟨offset, t, ho, hacc, hs⟩
  -- there is no such place: both fail, before the session has sent anything
  · rw [hs] at hsettle
    obtain ⟨hstore, hsink, hresult⟩ : report.store = host.store ∧ report.sink = [] ∧
        report.result = .error failure := by
      simpa using hsettle
    have hmoved : h.seekTo host.store lock d = (h, .error failure) := by simp only [Handle.seekTo, hlock, ho]
    rw [hmoved, hresult]
    refine ⟨hstore, fun offset => ⟨?_, ?_⟩, ?_, ?_⟩
    · rintro ⟨n, hn⟩; cases hn
    · intro hoffset; cases hoffset
    · intro offset n hn; cases hn
    · intro failure' hf
      cases hf
      exact ⟨rfl, hsink⟩
  -- both find the place: what the session sent and what the handle has before it are the rest of the log
  · rw [hs] at hsettle
    obtain ⟨hstore, rfl, hresult⟩ : report.store = host.store ∧ report.sink = t ∧
        report.result = .ok (.sought offset t.accepted.length) := by
      simpa using hsettle
    have hmoved : h.seekTo host.store lock d = ({ h with position := offset }, .ok offset) := by
      simp only [Handle.seekTo, hlock, ho]
    rw [hmoved, hresult]
    refine ⟨hstore, fun offset' => ⟨?_, ?_⟩, ?_, ?_⟩
    · rintro ⟨n, hn⟩
      cases hn; rfl
    · intro hoffset
      cases hoffset; exact ⟨_, rfl⟩
    · intro offset' n hn
      cases hn
      refine ⟨rfl, ?_, fun sizes hsizes => ?_⟩
      · have hlt := Log.offsetOf_lt_size hhost.wf ho
        rw [hacc, List.length_drop, Log.length_bytes]
        omega
      · rw [hacc]
        exact Handle.readWith_to_end hlock _ hsizes
    · intro failure hf; cases hf

/-- A log of an empty entry and a command, after an eviction; the directive comes in two pieces, and is read one byte at
a time. -/
theorem handle_directive_eq_seekTo_second_byte :
    let host := (run { store := { log := Ring.empty 2 } }
      [(.free, .commit [1]), (.free, .commit []), (.free, .commit [97, 98, 10])]).1
    let d : Directive := ⟨1, 1⟩
    let sent := [d.encode.take 7, d.encode.drop 7]
    let session : Session := { settings := ⟨0, 64, 0, 0⟩ }
    host.Reachable ∧ (∀ piece ∈ sent, piece ≠ []) ∧ sent.flatten = d.encode ∧ session.settings.chunk < 2 ^ 63 ∧
      d.encode.length ≤ session.settings.commandLimit ∧ host.store.acquire .free = .ok () ∧
      ∃ closed report,
        session.handle Outlet.accepting.sink .free host.store [] (Session.sending sent) = .ok (closed, report) ∧
        ∃ n, report.result = .ok (.sought 1 n) ∧ n = report.sink.accepted.length ∧ 1 ≤ n := by
  intro host d sent session
  have hhost : host.Reachable := ⟨2, _, _, rfl, rfl⟩
  have hne : ∀ piece ∈ sent, piece ≠ [] := by decide
  have hsent : sent.flatten = d.encode := by decide
  have hchunk : session.settings.chunk < 2 ^ 63 := by decide
  have hlimit : d.encode.length ≤ session.settings.commandLimit := by decide
  have hlock : host.store.acquire .free = .ok () := rfl
  obtain ⟨closed, report, hrun, -, hsought, hbytes, -⟩ :=
    handle_directive_eq_seekTo hhost d hne hsent session hchunk hlimit hlock host.store.openHandle
  obtain ⟨n, hn⟩ := (hsought 1).2 (by decide)
  obtain ⟨hlen, hpos, -⟩ := hbytes 1 n hn
  exact ⟨hhost, hne, hsent, hchunk, hlimit, hlock, closed, report, hrun, n, hn, hlen, hpos⟩

end Host

end LineRing
