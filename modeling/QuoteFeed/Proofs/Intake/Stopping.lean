import QuoteFeed.Proofs.Intake.Running
import QuoteFeed.Proofs.Intake.Worker

/-! # Stopping

A run that its sink asks to stop still takes the burst that it has begun, and then polls no more.
The intake remembers the request for good: its later runs are over before they poll, while packets
and bursts that are handed to it are taken as ever. -/

namespace QuoteFeed.Intake

variable {σ τ : Type} [Sink σ] [Source τ]

/-! ## The poll in which a run is stopped -/

/-- The sink asks for a stop at the `n`-th offer of a run, and the run makes that offer after so
many polls, for the burst of the next one. -/
structure StopsAt (s : Intake σ) (source : τ) (n polls : Nat) : Prop where
  running : ∀ i ≤ polls, Source.isExhausted (Source.after source i) = false
  quiet : ∀ response ∈ s.responses (Source.handed source polls), response.stops = false
  later : (s.responses (Source.handed source polls)).length < n
  stops : (s.responses (Source.handed source (polls + 1)))[n - 1]?.map Response.stops = some true

namespace StopsAt

variable {s : Intake σ} {source : τ} {n polls : Nat}

theorem stopped (h : StopsAt s source n polls) :
    (s.receiveAll (Source.handed source (polls + 1))).stopped = true := by
  obtain ⟨response, hresponse, hstops⟩ := Option.map_eq_some_iff.mp h.stops
  rw [receiveAll_stopped, Bool.or_eq_true_iff]
  exact .inr (List.any_eq_true.mpr ⟨response, List.mem_of_getElem? hresponse, hstops⟩)

theorem ends (h : StopsAt s source n polls) (hstopped : s.stopped = false)
    (hplain : ∀ i, (Source.poll (Source.after source i)).IsPlain) :
    Ends s source (polls + 1) := by
  have hpolls : Polls s source (polls + 1) := by
    refine ⟨fun i _ => hplain i, fun i hi => h.running i (Nat.le_of_lt_succ hi), ?_⟩
    intro i hi
    exact receiveAll_unstopped_of_isPrefix (receiveAll_unstopped hstopped h.quiet)
      (Source.handed_isPrefix source (Nat.le_of_lt_succ hi))
  apply hpolls.ends
  exact Bool.or_eq_true_iff.mpr (.inl h.stopped)

/-- A sink that asks for a stop at some offer of the first polls does so in one of them first. -/
theorem exists_of_stops (s : Intake σ) (source : τ) {polls : Nat}
    (hrunning : ∀ i < polls, Source.isExhausted (Source.after source i) = false)
    (hstops : ∃ response ∈ s.responses (Source.handed source polls), response.stops = true) :
    ∃ n earlier, earlier < polls ∧ StopsAt s source n earlier := by
  induction polls with
  | zero =>
      obtain ⟨response, hresponse, _⟩ := hstops
      cases hresponse
  | succ polls ih =>
      by_cases h : ∃ response ∈ s.responses (Source.handed source polls), response.stops = true
      · obtain ⟨n, earlier, hlt, hstop⟩ := ih (fun i hi => hrunning i (Nat.lt_succ_of_lt hi)) h
        exact ⟨n, earlier, Nat.lt_succ_of_lt hlt, hstop⟩
      · have hquiet : ∀ response ∈ s.responses (Source.handed source polls),
            response.stops = false := by
          intro response hresponse
          exact Bool.eq_false_iff.mpr fun hstops => h ⟨response, hresponse, hstops⟩
        obtain ⟨rest, hrest⟩ :=
          s.responses_isPrefix (Source.handed_isPrefix source (Nat.le_succ polls))
        obtain ⟨response, hresponse, hstopping⟩ := hstops
        obtain ⟨k, hk⟩ := List.mem_iff_getElem?.mp hresponse
        refine ⟨k + 1, polls, Nat.lt_succ_self polls, ?_, hquiet, ?_,
          Option.map_eq_some_iff.mpr ⟨response, hk, hstopping⟩⟩
        · intro i hi
          exact hrunning i (Nat.lt_succ_of_le hi)
        -- The polls before were quiet, so the stopping offer comes after all of theirs.
        · apply Nat.lt_succ_of_le
          apply Nat.le_of_not_lt
          intro hlt
          rw [← hrest, List.getElem?_append_left hlt] at hk
          rw [hquiet response (List.mem_of_getElem? hk)] at hstopping
          cases hstopping

end StopsAt

/-! ## Stopped for good -/

theorem Worker.Change.stopped {w v : Worker σ} (h : w.Change v)
    (hstopped : w.intake.stopped = true) : v.intake.stopped = true := by
  cases h with
  | packet ticker payload time task =>
      let s : Intake σ := { w.intake with ticker }
      change (s.process payload time).2.stopped = true
      rcases s.process_cases payload time with ⟨_, hprocess⟩ | ⟨_, quote, _, hprocess⟩
      · rw [hprocess]
        exact hstopped
      · rw [hprocess]
        exact Bool.or_eq_true_iff.mpr (.inl hstopped)
  | reset => exact hstopped
  | warmUp =>
      obtain ⟨pool, ticker, hframe⟩ := w.intake.warmUp_frame
      rw [hframe]
      exact hstopped
  | control asked task => exact Bool.or_eq_true_iff.mpr (.inl hstopped)

theorem work_stopped {s : Intake σ} (h : s.stopped = true) (moves : List Move) :
    (s.work moves).intake.stopped = true :=
  Worker.perform_induction (fun hw hchange => hchange.stopped hw) h moves

theorem run?_of_stopped {s : Intake σ} (h : s.stopped = true) (source : τ) (polls : Nat) :
    s.run? polls source = some ⟨s, source, 0⟩ :=
  Run.finish?_of_isOver (Bool.or_eq_true_iff.mpr (.inl h)) polls

omit [Sink σ] in
theorem stopIf_true (s : Intake σ) : s.stopIf true = s.stop := by
  rw [stopIf, Bool.or_true]
  rfl

/-! ## Runs and stops -/

/-- How stops bear on a run that begins with no stop asked for, and on what comes after it. -/
structure StoppingSpec (s : Intake σ) (source : τ) : Prop where
  /-- Offers are made for payloads that can be decoded only. -/
  offers : ∀ payloads, (s.responses payloads).length =
    payloads.countP fun payload => 28 ≤ payload.length
  /-- The burst for which the stopping offer is made is the last, and is taken whole. -/
  ends : ∀ n polls, StopsAt s source n polls →
    Ends s source (polls + 1) ∧ (s.polled source (polls + 1)).intake.stopped = true
  /-- Whenever the offers of some polls come to a stop, one of these polls is the last. -/
  stops : ∀ polls, (∀ i < polls, Source.isExhausted (Source.after source i) = false) →
    (∃ response ∈ s.responses (Source.handed source polls), response.stops = true) →
    ∃ n earlier, earlier < polls ∧ StopsAt s source n earlier
  /-- A finite source without a stop is delivered in full. -/
  delivers : ∀ payloads, Source.Delivers source payloads →
    (∀ response ∈ s.responses payloads, response.stops = false) →
    ∃ polls, Source.handed source polls = payloads ∧ Ends s source polls
  /-- Whoever asks for a stop sets the request, if it is not set already. -/
  stop : ∀ t : Intake σ, t.stop.stopped = true ∧ (t.stopped = true → t.stop = t)
  latch : ∀ {t : Intake σ}, t.stopped = true → ∀ moves, (t.work moves).intake.stopped = true
  /-- Later runs poll nothing and change nothing. -/
  runs : ∀ {t : Intake σ}, t.stopped = true → ∀ {ρ : Type} [Source ρ] (later : ρ) polls,
    t.run? polls later = some ⟨t, later, 0⟩
  process : ∀ (t : Intake σ) payload time, t.stop.process payload time =
    ((t.process payload time).1, (t.process payload time).2.stop)
  receiveAll : ∀ (t : Intake σ) burst, t.stop.receiveAll burst = (t.receiveAll burst).stop

theorem run_stoppingSpec {s : Intake σ} {source : τ} (hstopped : s.stopped = false)
    (hplain : ∀ i, (Source.poll (Source.after source i)).IsPlain) : StoppingSpec s source where
  offers := s.length_responses
  ends n polls h := ⟨h.ends hstopped hplain, h.stopped⟩
  stops _ hrunning hstops := StopsAt.exists_of_stops s source hrunning hstops
  delivers payloads hdelivers hquiet := by
    obtain ⟨polls, hhanded, hends⟩ := ends_of_delivers hdelivers
    exact ⟨polls, hhanded, hends s (receiveAll_unstopped hstopped hquiet)⟩
  stop t := ⟨t.stopped_stop, stop_of_stopped⟩
  latch := work_stopped
  runs hstopped _ _ later polls := run?_of_stopped hstopped later polls
  process t payload time := by
    rw [← stopIf_true, ← stopIf_true]
    exact t.process_stopIf true payload time
  receiveAll t burst := by
    rw [← stopIf_true, ← stopIf_true]
    exact t.receiveAll_stopIf true burst

/-- A sink that takes nothing and asks for a stop at the last of so many offers. -/
structure Countdown where
  left : Nat

instance : Sink Countdown where
  offer sink _ := { taken := false, stops := sink.left == 1, sink := ⟨sink.left - 1⟩ }

/-- The second offer is made for the first packet of the second burst; the run still takes the other
packet of that burst, and leaves the third burst with the source. -/
theorem run_stoppingSpec_countdown :
    let s : Intake Countdown := small ⟨2⟩
    let payloads : List Payload := [[], .replicate 28 7, .replicate 28 7, .replicate 28 7, []]
    let source : Replay := { payloads, burstSize := 2 }
    StoppingSpec s source ∧ StopsAt s source 2 1 ∧
      (s.run? 2 source).map Run.packets = some 4 := by
  intro s payloads source
  have hstops : StopsAt s source 2 1 :=
    ⟨by decide +kernel, by decide +kernel, by decide +kernel, by decide +kernel⟩
  exact ⟨run_stoppingSpec rfl fun i => (Source.after source i).isPlain_poll, hstops,
    by decide +kernel⟩

end QuoteFeed.Intake
