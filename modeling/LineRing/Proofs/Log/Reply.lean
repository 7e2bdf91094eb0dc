/-
A reply to a peer that may stop taking at any time. Main statement: whatever the peer does, what it took is a prefix of
what the log has from the offset on; each write is offered the slice that comes next, once; and the reply succeeds just
if every call did, and otherwise ends with the first call that did not, which is the failure that it reports
(`stream_stops_at_first_refusal`).

The proof is by one inversion of a reply, `exists_ends`: the calls are the slices that were taken whole, and then one
last call, of which `Ends` says what was left to send and what is reported.
-/
import LineRing.Proofs.Log.Slices
import LineRing.Proofs.Ring.Queue
import LineRing.Sink

namespace LineRing

/-! ## Calls and their answers -/

/-- Whether a write was taken whole, or a flush done. -/
def Call.IsDone : Call → Prop
  | .write offered answer => answer = .ok offered.length
  | .flush answer => answer = .ok ()

/-- Whether a call is answered as the outlet answers it after these calls. -/
def Call.AnsweredBy (o : Outlet) (before : Transcript) : Call → Prop
  | .write offered answer => answer = (o.write before offered).map Fin.val
  | .flush answer => answer = o.flush before

/-- Whether each call of a transcript is answered as the outlet answers it. -/
def Outlet.Answered (o : Outlet) (t : Transcript) : Prop :=
  ∀ before call after, t = before ++ call :: after → call.AnsweredBy o before

theorem append_singleton_eq_append_cons {α : Type} {l before after : List α} {a b : α}
    (h : l ++ [a] = before ++ b :: after) :
    l = before ∧ a = b ∧ after = [] ∨ ∃ rest, l = before ++ b :: rest := by
  rcases List.eq_nil_or_concat after with rfl | ⟨rest, c, rfl⟩
  · obtain ⟨hl, ha⟩ := List.append_inj' h rfl
    exact Or.inl ⟨hl, List.singleton_inj.1 ha, rfl⟩
  · rw [List.concat_eq_append, ← List.cons_append, ← List.append_assoc] at h
    exact Or.inr ⟨rest, (List.append_inj' h rfl).1⟩

namespace Outlet

variable {o : Outlet} {t : Transcript}

theorem answered_nil (o : Outlet) : o.Answered [] := by
  intro before call after h
  exact absurd h (by simp)

theorem Answered.concat (h : o.Answered t) {call : Call} (hcall : call.AnsweredBy o t) : o.Answered (t ++ [call]) := by
  intro before c after hsplit
  rcases append_singleton_eq_append_cons hsplit with ⟨rfl, rfl, -⟩ | ⟨rest, hrest⟩
  · exact hcall
  · exact h before c rest hrest

theorem answered_write (h : o.Answered t) (offered : Bytes) : o.Answered (o.sink.write t offered).1 := h.concat rfl

theorem answered_sendAll (slices : List Bytes) : ∀ {t : Transcript}, o.Answered t →
    o.Answered (o.sink.sendAll t slices).1 := by
  induction slices with
  | nil => exact fun h => h
  | cons slice rest ih =>
    intro t h
    have hnext := answered_write h slice
    unfold Sink.sendAll
    split
    · rename_i u fault hw
      rw [hw] at hnext
      exact hnext
    · rename_i u taken hw
      rw [hw] at hnext
      split
      · exact ih hnext
      · exact hnext

theorem answered_stream (o : Outlet) (log : Log) (offset chunk : Nat) :
    o.Answered (log.stream offset chunk o.sink []).1 := by
  have hall := answered_sendAll (log.slicesFrom offset chunk) (answered_nil o)
  unfold Log.stream
  dsimp only
  split
  · rename_i u failure hs
    rw [hs] at hall
    exact hall
  · rename_i u hs
    rw [hs] at hall
    have hlast : o.Answered (o.sink.flush u).1 := hall.concat rfl
    split <;> (rename_i hf; rw [hf] at hlast; exact hlast)

/-! ## Where a reply ends -/

/-- The last call of a reply: what was left to send when it was made, its answer, and what the reply comes to. -/
inductive Ends : List Bytes → Call → Except Failure Unit → Prop
  | flushed : Ends [] (.flush (.ok ())) (.ok ())
  | notFlushed (fault : Fault) : Ends [] (.flush (.error fault)) (.error (.stream fault))
  | short {slice : Bytes} (rest : List Bytes) {taken : Nat} (hlt : taken < slice.length) :
      Ends (slice :: rest) (.write slice (.ok taken)) (.error (.shortWrite slice.length taken))
  | refused (slice : Bytes) (rest : List Bytes) (fault : Fault) :
      Ends (slice :: rest) (.write slice (.error fault)) (.error (.stream fault))

/-- Slices are sent whole, one after the other, up to the first that is not taken whole. -/
theorem sendAll_cases (o : Outlet) (slices : List Bytes) : ∀ t : Transcript,
    o.sink.sendAll t slices = (t ++ sent slices, .ok ()) ∨
    ∃ done rest last failure, slices = done ++ rest ∧ Ends rest last (.error failure) ∧
      o.sink.sendAll t slices = (t ++ sent done ++ [last], .error failure) := by
  induction slices with
  | nil => exact fun t => Or.inl (by simp [Sink.sendAll, sent])
  | cons slice rest ih =>
    intro t
    cases hw : o.write t slice with
    | error fault =>
      refine Or.inr ⟨[], slice :: rest, _, _, rfl, .refused slice rest fault, ?_⟩
      simp [Sink.sendAll, sink, hw, Except.map, sent]
    | ok taken =>
      by_cases hwhole : taken.val = slice.length
      · have hstep : o.sink.sendAll t (slice :: rest) = o.sink.sendAll (t ++ sent [slice]) rest := by
          simp [Sink.sendAll, sink, hw, Except.map, hwhole, sent]
        have happ : ∀ done, t ++ sent [slice] ++ sent done = t ++ sent (slice :: done) := by
          intro done
          rw [List.append_assoc]; rfl
        rw [hstep]
        rcases ih (t ++ sent [slice]) with hall | ⟨done, left, last, failure, rfl, hends, hstop⟩
        · exact Or.inl (by rw [hall, happ])
        · exact Or.inr ⟨slice :: done, left, last, failure, rfl, hends, by rw [hstop, happ]⟩
      · have hlt : taken.val < slice.length := by omega
        refine Or.inr ⟨[], slice :: rest, _, _, rfl, .short rest hlt, ?_⟩
        simp [Sink.sendAll, sink, hw, Except.map, hwhole, sent]

/-- A reply is slices that were taken whole, and one last call. -/
theorem exists_ends (o : Outlet) (log : Log) (offset chunk : Nat) :
    ∃ done rest last result, log.slicesFrom offset chunk = done ++ rest ∧ Ends rest last result ∧
      log.stream offset chunk o.sink [] =
        (sent done ++ [last], result.map fun _ => (log.bytes.drop offset).length) := by
  have hlen : totalLength (log.slicesFrom offset chunk) = (log.bytes.drop offset).length := by
    rw [totalLength_eq, Log.flatten_slicesFrom]
  unfold Log.stream
  rcases sendAll_cases o (log.slicesFrom offset chunk) [] with hall | ⟨done, rest, last, failure, hslices, hends, hstop⟩
  · have hflush : ∀ u, o.sink.flush u = (u ++ [.flush (o.flush u)], o.flush u) := fun _ => rfl
    refine ⟨log.slicesFrom offset chunk, [], .flush (o.flush (sent (log.slicesFrom offset chunk))), ?_⟩
    simp only [hall, hflush, List.nil_append, hlen]
    cases o.flush (sent (log.slicesFrom offset chunk)) with
    | error fault => exact ⟨_, (List.append_nil _).symm, .notFlushed fault, rfl⟩
    | ok u => exact ⟨_, (List.append_nil _).symm, .flushed, rfl⟩
  · exact ⟨done, rest, last, _, hslices, hends, by simp only [hstop, List.nil_append]; rfl⟩

/-! ## Calls of a reply -/

theorem sent_eq_append_cons {done : List Bytes} {before after : Transcript} {call : Call}
    (h : sent done = before ++ call :: after) :
    ∃ first slice, (∃ more, done = first ++ slice :: more) ∧ before = sent first ∧
      call = .write slice (.ok slice.length) := by
  obtain ⟨first, left, rfl, hfirst, hleft⟩ := List.map_eq_append_iff.1 h
  obtain ⟨slice, more, rfl, hcall, -⟩ := List.map_eq_cons_iff.1 hleft
  exact ⟨first, slice, ⟨more, rfl⟩, hfirst.symm, hcall.symm⟩

/-- A call of a reply is its last one, or a write that was taken whole. -/
theorem call_cases {done : List Bytes} {last call : Call} {before after : Transcript}
    (h : sent done ++ [last] = before ++ call :: after) :
    before = sent done ∧ call = last ∧ after = [] ∨
    ∃ first slice, (∃ more, done = first ++ slice :: more) ∧ before = sent first ∧
      call = .write slice (.ok slice.length) := by
  rcases append_singleton_eq_append_cons h with ⟨rfl, rfl, rfl⟩ | ⟨rest, hrest⟩
  · exact Or.inl ⟨rfl, rfl, rfl⟩
  · exact Or.inr (sent_eq_append_cons hrest)

section Last

variable {rest : List Bytes} {last : Call} {result : Except Failure Unit}

theorem Ends.accepted_prefix (h : Ends rest last result) : Transcript.accepted [last] <+: rest.flatten := by
  cases h with
  | flushed | notFlushed | refused => exact List.nil_prefix
  | @short slice rest taken hlt =>
    have hacc : Transcript.accepted [.write slice (.ok taken)] = slice.take taken := by
      simp [Transcript.accepted, Transcript.writes]
    rw [hacc, List.flatten_cons]
    exact (List.take_prefix _ _).trans (List.prefix_append _ _)

/-- A last write was offered what comes next. -/
theorem Ends.of_write {offered : Bytes} {answer : Except Fault Nat} (h : Ends rest (.write offered answer) result) :
    ∃ more, rest = offered :: more := by
  cases h with
  | short more _ | refused _ more _ => exact ⟨more, rfl⟩

theorem Ends.of_short {offered : Bytes} {taken : Nat} (h : Ends rest (.write offered (.ok taken)) result) :
    taken < offered.length ∧ result = .error (.shortWrite offered.length taken) := by
  cases h with
  | short more hlt => exact ⟨hlt, rfl⟩

theorem Ends.of_refused {offered : Bytes} {fault : Fault} (h : Ends rest (.write offered (.error fault)) result) :
    result = .error (.stream fault) := by
  cases h with
  | refused => rfl

/-- A flush is the last call only where nothing is left to send. -/
theorem Ends.of_flush {answer : Except Fault Unit} (h : Ends rest (.flush answer) result) :
    rest = [] ∧ ∀ fault, answer = .error fault → result = .error (.stream fault) := by
  cases h with
  | flushed => exact ⟨rfl, fun fault hfault => (by cases hfault)⟩
  | notFlushed fault => exact ⟨rfl, fun other hother => (by cases hother; rfl)⟩

theorem Ends.of_ok (h : Ends rest last (.ok ())) : rest = [] ∧ last = .flush (.ok ()) := by
  cases h with
  | flushed => exact ⟨rfl, rfl⟩

theorem Ends.writeCalls_le (h : Ends rest last result) : Transcript.writeCalls [last] ≤ rest.length := by
  cases h with
  | flushed | notFlushed => exact Nat.zero_le _
  | short | refused => exact Nat.succ_le_succ (Nat.zero_le _)

theorem Ends.isOk_iff (h : Ends rest last result) : result = .ok () ↔ last.IsDone := by
  cases h with
  | flushed => exact iff_of_true rfl rfl
  | notFlushed | refused => exact ⟨fun hok => (by cases hok), fun hdone => (by cases hdone)⟩
  | short rest hlt =>
    refine ⟨fun hok => (by cases hok), fun hdone => ?_⟩
    have hlen := Except.ok.inj hdone
    omega

end Last

/-- A reply that succeeds has sent what the log has from the offset on, and reports how long that is. -/
theorem accepted_of_stream_eq_ok (o : Outlet) {log : Log} {offset chunk n : Nat} {t : Transcript}
    (h : log.stream offset chunk o.sink [] = (t, .ok n)) :
    t.accepted = log.bytes.drop offset ∧ n = t.accepted.length := by
  obtain ⟨done, rest, last, result, hslices, hends, hstream⟩ := o.exists_ends log offset chunk
  rw [hstream] at h
  obtain ⟨rfl, hresult⟩ := Prod.mk.inj h
  cases result with
  | error failure => cases hresult
  | ok u =>
    cases hresult
    obtain ⟨rfl, rfl⟩ := hends.of_ok
    have hflush : Transcript.accepted [.flush (.ok ())] = [] := rfl
    rw [accepted_append, accepted_sent, hflush, List.append_nil, ← Log.flatten_slicesFrom log offset chunk, hslices,
      List.append_nil]
    exact ⟨rfl, rfl⟩

theorem isDone_of_mem_sent {done : List Bytes} {call : Call} (h : call ∈ sent done) : call.IsDone := by
  obtain ⟨slice, -, rfl⟩ := List.mem_map.1 h
  rfl

theorem writeCalls_sent_append (done : List Bytes) (t : Transcript) :
    Transcript.writeCalls (sent done ++ t) = done.length + t.writeCalls := by
  simp [sent, Transcript.writeCalls, List.countP_map, Function.comp_def]

end Outlet

namespace Log

/-! ## The main statement -/

/-- A reply is honest under every peer. Take any log that insertions and clearings lead to from a new one, with
entries of any size, empty ones among them, and an outlet that answers each call as it likes. Sending from any offset
on, in chunks of any size, ends after no more writes than there are bytes left. What the outlet takes begins what the
log has from the offset on. Each write is offered the slice that comes after what was taken, a byte at least and no
more than a chunk, of one command. The reply succeeds just if all its calls do; then all bytes were taken, their
number is reported, and the one flush was the last call. A write that is not taken whole, and one that fails, for
whatever reason, is the last call, and is reported. A flush is the last call too, and is made once all bytes were
taken. -/
theorem stream_stops_at_first_refusal {capacity : Nat} {new : Log} (h : Ring.create capacity = .ok new)
    (ops : List (Ring.Op Entry)) (offset chunk : Nat) (o : Outlet) :
    let log : Log := (new.run ops).1
    let wanted := log.bytes.drop offset
    ∃ t result, log.stream offset chunk o.sink [] = (t, result) ∧ o.Answered t ∧ t.accepted <+: wanted ∧
      t.writeCalls ≤ wanted.length ∧
      (∀ (before : Transcript) offered answer after, t = before ++ .write offered answer :: after →
        1 ≤ offered.length ∧ offered.length ≤ max chunk 1 ∧
        log.slice? (offset + before.accepted.length) (max chunk 1) = some offered ∧
        log.Holds (offset + before.accepted.length) offered) ∧
      ((∃ n, result = .ok n) ↔ ∀ call ∈ t, call.IsDone) ∧
      (∀ n, result = .ok n →
        t.accepted = wanted ∧ n = wanted.length ∧ ∃ writes, t = Outlet.sent writes ++ [.flush (.ok ())]) ∧
      (∀ (before : Transcript) offered taken after, t = before ++ .write offered (.ok taken) :: after →
        taken ≠ offered.length →
        taken < offered.length ∧ after = [] ∧ result = .error (.shortWrite offered.length taken)) ∧
      (∀ (before : Transcript) offered fault after, t = before ++ .write offered (.error fault) :: after →
        after = [] ∧ result = .error (.stream fault)) ∧
      (∀ (before : Transcript) answer after, t = before ++ .flush answer :: after →
        after = [] ∧ before.accepted = wanted ∧ ∀ fault, answer = .error fault → result = .error (.stream fault)) := by
  intro log wanted
  have hwf : log.WF := (Ring.queued_run h ops).wf
  obtain ⟨done, rest, last, result, hslices, hends, hstream⟩ := o.exists_ends log offset chunk
  have hanswered := o.answered_stream log offset chunk
  rw [hstream] at hanswered
  have hread := log.readOut_slicesFrom offset chunk
  rw [hslices] at hread
  have hflat : done.flatten ++ rest.flatten = wanted := by
    rw [← List.flatten_append, ← hslices, flatten_slicesFrom]
  have hresult : ∀ n, result.map (fun _ => wanted.length) = .ok n ↔ result = .ok () ∧ n = wanted.length := by
    intro n
    cases result with
    | error failure => exact ⟨fun hok => (by cases hok), fun hok => (by cases hok.1)⟩
    | ok u => exact ⟨fun hok => ⟨rfl, (Except.ok.inj hok).symm⟩, fun hok => congrArg Except.ok hok.2.symm⟩
  have herror : ∀ failure, result = .error failure → result.map (fun _ => wanted.length) = .error failure := by
    rintro failure rfl; rfl
  -- the slice at a place among those that were sent, or next to be sent
  have hslice : ∀ first slice more, done ++ rest = first ++ slice :: more →
      1 ≤ slice.length ∧ slice.length ≤ max chunk 1 ∧
      log.slice? (offset + first.flatten.length) (max chunk 1) = some slice ∧
      log.Holds (offset + first.flatten.length) slice := by
    intro first slice more hsplit
    have hs := hread.slice?_eq hsplit
    obtain ⟨-, hle, hpos⟩ := slice?_eq_some hs
    exact ⟨hpos (by omega), hle, hs, holds_of_slice? hwf hs⟩
  refine ⟨_, _, hstream, hanswered, ?_, ?_, ?_, ?_, ?_, ?_, ?_, ?_⟩
  · rw [Outlet.accepted_append, Outlet.accepted_sent, ← hflat]
    exact (List.prefix_append_right_inj _).2 hends.accepted_prefix
  · have hne : ∀ b ∈ done ++ rest, b ≠ [] := by
      intro b hb
      rw [← hslices] at hb
      exact List.length_pos_iff.1 (length_of_mem_slicesFrom hb).1
    have hle := length_le_totalLength hne
    have hlast := hends.writeCalls_le
    rw [totalLength_eq, List.flatten_append, hflat, List.length_append] at hle
    rw [Outlet.writeCalls_sent_append]
    omega
  · intro before offered answer after hsplit
    rcases Outlet.call_cases hsplit with ⟨rfl, rfl, -⟩ | ⟨first, slice, ⟨more, rfl⟩, rfl, hcall⟩
    · obtain ⟨more, rfl⟩ := hends.of_write
      rw [Outlet.accepted_sent]
      exact hslice done offered more rfl
    · obtain ⟨rfl, -⟩ := Call.write.inj hcall
      rw [Outlet.accepted_sent]
      exact hslice first offered (more ++ rest) (by rw [List.append_assoc, List.cons_append])
  · rw [List.forall_mem_append, List.forall_mem_singleton, ← hends.isOk_iff]
    constructor
    · rintro ⟨n, hn⟩
      exact ⟨fun _ => Outlet.isDone_of_mem_sent, ((hresult n).1 hn).1⟩
    · rintro ⟨-, hok⟩
      exact ⟨_, (hresult _).2 ⟨hok, rfl⟩⟩
  · intro n hn
    obtain ⟨rfl, rfl⟩ := (hresult n).1 hn
    obtain ⟨rfl, rfl⟩ := hends.of_ok
    refine ⟨?_, rfl, done, rfl⟩
    rw [Outlet.accepted_append, Outlet.accepted_sent, ← hflat]
    rfl
  · intro before offered taken after hsplit hne
    rcases Outlet.call_cases hsplit with ⟨rfl, rfl, rfl⟩ | ⟨first, slice, -, rfl, hcall⟩
    · obtain ⟨hlt, hshort⟩ := hends.of_short
      exact ⟨hlt, rfl, herror _ hshort⟩
    · obtain ⟨rfl, hanswer⟩ := Call.write.inj hcall
      exact absurd (Except.ok.inj hanswer) hne
  · intro before offered fault after hsplit
    rcases Outlet.call_cases hsplit with ⟨rfl, rfl, rfl⟩ | ⟨first, slice, -, rfl, hcall⟩
    · exact ⟨rfl, herror _ hends.of_refused⟩
    · cases (Call.write.inj hcall).2
  · intro before answer after hsplit
    rcases Outlet.call_cases hsplit with ⟨rfl, rfl, rfl⟩ | ⟨first, slice, -, rfl, hcall⟩
    · obtain ⟨rfl, hfault⟩ := hends.of_flush
      rw [Outlet.accepted_sent, ← hflat]
      exact ⟨rfl, (List.append_nil _).symm, fun fault hf => herror _ (hfault fault hf)⟩
    · cases hcall

/-- An interrupted write after one that was taken whole; between the two slices lies an empty entry. -/
theorem stream_stops_at_first_refusal_interrupted :
    let log : Log := ((Ring.empty 3 : Log).run [.insert [97, 98, 10], .insert [], .insert [99, 10]]).1
    let fault : Fault := ⟨.interrupted, none⟩
    let o := Outlet.limited none (some (1, fault)) none
    (Ring.create 3 : Except Unmade Log) = .ok (Ring.empty 3) ∧ log.bytes.drop 1 = [98, 10, 99, 10] ∧
      ∃ t, log.stream 1 2 o.sink [] = (t, .error (.stream fault)) ∧ t.accepted = [98, 10] ∧
        t.accepted <+: log.bytes.drop 1 ∧ log.Holds 3 [99, 10] := by
  intro log fault o
  have hnew : (Ring.create 3 : Except Unmade Log) = .ok (Ring.empty 3) := rfl
  obtain ⟨t, result, hstream, -, hprefix, -, hoffered, -, -, -, hfailed, -⟩ :=
    stream_stops_at_first_refusal hnew [.insert [97, 98, 10], .insert [], .insert [99, 10]] 1 2 o
  obtain rfl : [.write [98, 10] (.ok 2), .write [99, 10] (.error fault)] = t := congrArg Prod.fst hstream
  obtain ⟨-, rfl⟩ := hfailed [.write [98, 10] (.ok 2)] [99, 10] fault [] rfl
  obtain ⟨-, -, -, hholds⟩ := hoffered [.write [98, 10] (.ok 2)] [99, 10] (.error fault) [] rfl
  exact ⟨hnew, by decide, _, hstream, by decide, hprefix, hholds⟩

end Log

end LineRing
