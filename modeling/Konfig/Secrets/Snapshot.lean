import Konfig.Secrets.Session

/-!
# The snapshot of a secret stream

`SubscribeSecrets` puts the whole snapshot into the channel before it hands out the
response, so nobody reads while the channel fills.

* `SecretSubscriber.Filling.whole_iff`: when the response is out, the stream has the
  whole snapshot and is live exactly when the snapshot fits into the channel.
* `SecretSubscriber.Filling.returns`: the response is always handed out.
* `overfull_stream`: a snapshot that does not fit ends cleanly.
-/

namespace Konfig

open Lib

/-! ### Until the response is out -/

/-- The call has sent its snapshot and gone on. -/
def SecretSubscriber.Live (sub : SecretSubscriber) : Prop :=
  sub.phase = .bridging ∨ sub.phase = .starting ∨ sub.phase = .watching

/-- The call is live, and its channel got the whole snapshot. -/
def SecretSubscriber.Whole (sub : SecretSubscriber) : Prop :=
  sub.Live ∧ ∃ now, sub.content.map (secretEvent .snapshot now) <+: sub.out.items

/-- The invariant: no one reads until the response is out, so the snapshot fits into
the channel or the stream has stopped. -/
def SecretSubscriber.Filling (sub : SecretSubscriber) : Prop :=
  match sub.phase with
  | .reading => sub.out = .new
  | .snapshotting todo =>
    (sub.out.stage = .running ∧ sub.out.gone = false ∧ sub.out.received = [] ∧
      ∃ now done, sub.out.queue = done.map .ok ∧ done.length ≤ SECRET_CHANNEL_CAPACITY ∧
        done ++ todo = sub.content.map (secretEvent .snapshot now)) ∨
    (sub.out.stage ≠ .running ∧ SECRET_CHANNEL_CAPACITY < sub.content.length)
  | .bridging | .starting | .watching => sub.content.length ≤ SECRET_CHANNEL_CAPACITY ∧
      ∃ now, sub.content.map (secretEvent .snapshot now) <+: sub.out.items
  | .rejected => True

theorem filling_new : SecretSubscriber.new.Filling := rfl

/-- While the call is live, a step on the channel keeps the invariant. -/
theorem SecretSubscriber.Filling.live {sub : SecretSubscriber} {out : Emitter Status SecretEvent}
    {l : EmitterLabel Status SecretEvent} (hs : sub.Filling) (hout : SecretOut sub.out l out)
    (hlive : sub.Live) : SecretSubscriber.Filling { sub with out } := by
  have hgrow := Emitter.items_grow hout
  unfold SecretSubscriber.Filling at hs ⊢
  rcases hlive with hphase | hphase | hphase
  · simp only [hphase] at hs ⊢
    exact hs.imp id fun ⟨now, hpre⟩ => ⟨now, hpre.trans hgrow⟩
  · simp only [hphase] at hs ⊢
    exact hs.imp id fun ⟨now, hpre⟩ => ⟨now, hpre.trans hgrow⟩
  · simp only [hphase] at hs ⊢
    exact hs.imp id fun ⟨now, hpre⟩ => ⟨now, hpre.trans hgrow⟩

/-- After the sender has stopped, a step on the channel keeps the invariant. -/
theorem SecretSubscriber.Filling.stopped {sub : SecretSubscriber} {out : Emitter Status SecretEvent}
    {l : EmitterLabel Status SecretEvent} (hs : sub.Filling) (hout : SecretOut sub.out l out)
    (hold : sub.out.stage ≠ .running) (hnew : out.stage ≠ .running) :
    SecretSubscriber.Filling { sub with out } := by
  cases hphase : sub.phase with
  | reading =>
    unfold SecretSubscriber.Filling at hs
    rw [hphase] at hs
    rw [hs] at hold
    exact absurd rfl hold
  | snapshotting todo =>
    unfold SecretSubscriber.Filling at hs ⊢
    simp only [hphase] at hs ⊢
    rcases hs with ⟨hrun, _⟩ | ⟨_, hlen⟩
    · exact absurd hrun hold
    · exact Or.inr ⟨hnew, hlen⟩
  | bridging => exact hphase ▸ hs.live hout (Or.inl hphase)
  | starting => exact hphase ▸ hs.live hout (Or.inr (Or.inl hphase))
  | watching => exact hphase ▸ hs.live hout (Or.inr (Or.inr hphase))
  | rejected => trivial

/-- The response is out: the call is live, or its stream has ended. -/
theorem SecretSubscriber.returned_cases {sub : SecretSubscriber} (h : sub.returned = true) :
    sub.Live ∨ sub.out.stage = .ended := by
  unfold SecretSubscriber.returned at h
  split at h
  · exact Or.inr (of_decide_eq_true h)
  · exact Or.inr (of_decide_eq_true h)
  · exact Or.inl (Or.inl ‹_›)
  · exact Or.inl (Or.inr (Or.inl ‹_›))
  · exact Or.inl (Or.inr (Or.inr ‹_›))
  · cases h

/-- What the reader does keeps the invariant. -/
theorem SecretSubscriber.Filling.reader {sub : SecretSubscriber} {out : Emitter Status SecretEvent}
    {l : EmitterLabel Status SecretEvent} (hs : sub.Filling) (hout : SecretOut sub.out l out)
    (hret : sub.returned = true) : SecretSubscriber.Filling { sub with out } := by
  rcases SecretSubscriber.returned_cases hret with hlive | hend
  · exact hs.live hout hlive
  · refine hs.stopped hout (by rw [hend]; exact nofun) ?_
    rw [(Emitter.said_of_ended hend hout).1]
    exact nofun

/-- The snapshot is in the channel when the call goes live. -/
theorem SecretSubscriber.Filling.whole {sub : SecretSubscriber} (hs : sub.Filling)
    (hphase : sub.phase = .snapshotting []) (hrun : sub.out.stage = .running) :
    sub.content.length ≤ SECRET_CHANNEL_CAPACITY ∧
      ∃ now, sub.content.map (secretEvent .snapshot now) <+: sub.out.items := by
  unfold SecretSubscriber.Filling at hs
  rw [hphase] at hs
  rcases hs with ⟨_, _, hrecv, now, done, hqueue, hlen, hdone⟩ | ⟨hstop, _⟩
  · rw [List.append_nil] at hdone
    constructor
    · rw [hdone, List.length_map] at hlen
      exact hlen
    · refine ⟨now, ?_⟩
      rw [Emitter.items, Emitter.said, hrecv, hqueue, ← hdone, List.nil_append, List.filterMap_map]
      simp [Function.comp_def, Except.toOption]
  · exact absurd hrun hstop

/-- One event of the snapshot more, or the stream has stopped. -/
theorem SecretSubscriber.Filling.emit {sub : SecretSubscriber} {out : Emitter Status SecretEvent}
    {event : SecretEvent} {todo : List SecretEvent} (hs : sub.Filling)
    (hphase : sub.phase = .snapshotting (event :: todo)) (hout : SecretOut sub.out (.offer event) out) :
    SecretSubscriber.Filling { sub with phase := .snapshotting todo, out } := by
  unfold SecretSubscriber.Filling at hs
  rw [hphase] at hs
  rcases hs with ⟨_, hgone, hrecv, now, done, hqueue, hlen, hdone⟩ | ⟨hstop, _⟩
  · cases Emitter.move_of_step hout with
    | unread _ hg =>
      rw [hgone] at hg
      cases hg
    | written hrun hg hroom =>
      refine Or.inl ⟨hrun, hgone, hrecv, now, done ++ [event], ?_, ?_, ?_⟩
      · rw [List.map_append, hqueue]
        rfl
      · rw [hqueue, List.length_map] at hroom
        rw [List.length_append]
        exact hroom
      · rw [List.append_assoc]
        exact hdone
    | refused hrun hg hfull =>
      refine Or.inr ⟨nofun, ?_⟩
      have htotal := congrArg List.length hdone
      rw [List.length_append, List.length_cons, List.length_map] at htotal
      rw [hqueue, List.length_map] at hfull
      show SECRET_CHANNEL_CAPACITY < sub.content.length
      omega
  · exact absurd (Emitter.running_of_offer hout) hstop

theorem SecretSubscriber.Filling.step {req : SubscribeSecretsRequest} {served : Bool} {w : SecretWatcher}
    {sub sub' : SecretSubscriber} {l : SecretSubscriberLabel} (hs : sub.Filling)
    (h : sub.step req served w l = some sub') : sub'.Filling := by
  cases SecretSubscriber.move_of_step h with
  | @read order now hphase hrun horder =>
    unfold SecretSubscriber.Filling at hs
    rw [hphase] at hs
    refine Or.inl ⟨hrun, by rw [hs]; rfl, by rw [hs]; rfl, now, [], by rw [hs]; rfl, Nat.zero_le _, rfl⟩
  | emit hphase hout => exact hs.emit hphase hout
  | resume hphase hrun hreq => exact hs.whole hphase hrun
  | subscribe hphase hrun hreq => exact hs.whole hphase hrun
  | reject hphase hrun => trivial
  | recv hphase hsent hout =>
    exact hs.live hout (by simp [SecretSubscriber.Live, hphase])
  | lagged hphase hlag hout => exact hs.live hout (by simp [SecretSubscriber.Live, hphase])
  | started hphase hrun =>
    unfold SecretSubscriber.Filling at hs
    rw [hphase] at hs
    exact hs
  | startFailed hphase hout => exact hs.live hout (by simp [SecretSubscriber.Live, hphase])
  | raw hphase hoffered hevent hout => exact hs.live hout (by simp [SecretSubscriber.Live, hphase])
  | rawSkipped hphase => exact hs
  | rawError hphase hout => exact hs.live hout (by simp [SecretSubscriber.Live, hphase])
  | rawFailed hphase hout => exact hs.live hout (by simp [SecretSubscriber.Live, hphase])
  | overrun hphase hlag hout => exact hs.live hout (by simp [SecretSubscriber.Live, hphase])
  | finish hphase hl hlag hout =>
    rcases hphase with hphase | hphase
    · exact hs.live hout (by simp [SecretSubscriber.Live, hphase])
    · exact hs.live hout (by simp [SecretSubscriber.Live, hphase])
  | report hout =>
    cases Emitter.move_of_step hout with
    | told hfail _ _ => exact hs.stopped hout (by rw [hfail]; exact nofun) nofun
    | untold hfail _ => exact hs.stopped hout (by rw [hfail]; exact nofun) nofun
  | take hret hout => exact hs.reader hout hret
  | hangUp hret hout => exact hs.reader hout hret

theorem filling_of_run {req : SubscribeSecretsRequest} {served : Bool} {cache : SecretCache}
    {labels : List SecretLabel} {s : SecretSession}
    (hrun : run (SecretSession.step req served) (.start cache) labels = some s) : s.sub.Filling := by
  refine run_induction (fun _ s => s.sub.Filling) filling_new ?_ labels s hrun
  intro _ s l t _ ih hstep
  obtain ⟨l', w, rfl, hw, rfl⟩ | ⟨l', sub, rfl, hsub, rfl⟩ := SecretSession.step_cases hstep
  · exact ih
  · exact ih.step hsub

/-- A call whose response is out has sent the whole snapshot and gone on exactly when
the snapshot fits into the channel. -/
theorem SecretSubscriber.Filling.whole_iff {sub : SecretSubscriber} (hs : sub.Filling)
    (hret : sub.returned = true) : sub.Whole ↔ sub.content.length ≤ SECRET_CHANNEL_CAPACITY := by
  have hfits : sub.Live → sub.content.length ≤ SECRET_CHANNEL_CAPACITY ∧
      ∃ now, sub.content.map (secretEvent .snapshot now) <+: sub.out.items := by
    unfold SecretSubscriber.Filling at hs
    rintro (hphase | hphase | hphase)
    · rw [hphase] at hs
      exact hs
    · rw [hphase] at hs
      exact hs
    · rw [hphase] at hs
      exact hs
  constructor
  · rintro ⟨hlive, _⟩
    exact (hfits hlive).1
  · intro hlen
    rcases SecretSubscriber.returned_cases hret with hlive | hend
    · exact ⟨hlive, (hfits hlive).2⟩
    · unfold SecretSubscriber.Filling at hs
      unfold SecretSubscriber.returned at hret
      cases hphase : sub.phase with
      | reading =>
        rw [hphase] at hs
        rw [hs] at hend
        cases hend
      | snapshotting todo =>
        rw [hphase] at hs
        rcases hs with ⟨hrun, _⟩ | ⟨_, hover⟩
        · rw [hend] at hrun
          cases hrun
        · exact absurd hlen (Nat.not_le.mpr hover)
      | bridging => exact ⟨Or.inl hphase, (hfits (Or.inl hphase)).2⟩
      | starting => exact ⟨Or.inr (Or.inl hphase), (hfits (Or.inr (Or.inl hphase))).2⟩
      | watching => exact ⟨Or.inr (Or.inr hphase), (hfits (Or.inr (Or.inr hphase))).2⟩
      | rejected =>
        rw [hphase] at hret
        cases hret

/-! ### The handler returns -/

theorem SecretSession.step_sub {req : SubscribeSecretsRequest} {served : Bool} {s : SecretSession}
    {l : SecretSubscriberLabel} {sub : SecretSubscriber}
    (h : s.sub.step req served s.watcher l = some sub) :
    s.step req served (.sub l) = some { s with sub } := by
  rw [SecretSession.step, h, Option.map_some]

theorem SecretSubscriber.step_running (req : SubscribeSecretsRequest) (served : Bool) (w : SecretWatcher)
    {sub : SecretSubscriber} {l : SecretSubscriberLabel} (hrun : sub.out.stage = .running)
    (hl : l ≠ .report ∧ l ≠ .take ∧ l ≠ .hangUp) :
    sub.step req served w l = sub.taskStep req served w l := by
  rw [SecretSubscriber.step, hrun]
  · exact hl.1
  · exact hl.2.1
  · exact hl.2.2

/-- A snapshot whose sender has stopped is handed out as it is. -/
theorem returns_of_stopped {req : SubscribeSecretsRequest} {served : Bool} {s : SecretSession}
    {todo : List SecretEvent} (hphase : s.sub.phase = .snapshotting todo)
    (hstop : s.sub.out.stage ≠ .running) :
    ∃ t, Reaches (SecretSession.step req served) (fun _ _ => True) s t ∧ t.sub.returned = true := by
  cases hstage : s.sub.out.stage with
  | running => exact absurd hstage hstop
  | failing e =>
    obtain ⟨out, hout, hend⟩ := Emitter.report_exists hstage SECRET_CHANNEL_CAPACITY subscriberTooSlow
    have hstep : s.sub.step req served s.watcher .report = some { s.sub with out } := by
      rw [SecretSubscriber.step, SecretSubscriber.outStep, hout, Option.map_some]
    refine ⟨_, .single (SecretSession.step_sub hstep) trivial, ?_⟩
    simp only [SecretSubscriber.returned, hphase]
    exact decide_eq_true hend
  | ended =>
    refine ⟨s, .refl _ s, ?_⟩
    rw [SecretSubscriber.returned, hphase]
    exact decide_eq_true hstage

/-- A snapshot that is being sent comes to an end. -/
theorem returns_of_snapshotting {req : SubscribeSecretsRequest} {served : Bool}
    (hserved : req.resumeResourceVersion ≠ "" ∨ served = true) (todo : List SecretEvent) :
    ∀ s : SecretSession, s.sub.phase = .snapshotting todo →
      ∃ t, Reaches (SecretSession.step req served) (fun _ _ => True) s t ∧ t.sub.returned = true := by
  induction todo with
  | nil =>
    intro s hphase
    by_cases hrun : s.sub.out.stage = .running
    · have hstep := SecretSubscriber.step_running req served s.watcher (l := .join) hrun (by simp)
      simp only [SecretSubscriber.taskStep, hphase] at hstep
      by_cases hreq : req.resumeResourceVersion ≠ ""
      · rw [if_pos hreq] at hstep
        exact ⟨_, .single (SecretSession.step_sub hstep) trivial, rfl⟩
      · rw [if_neg hreq, if_pos (hserved.resolve_left hreq)] at hstep
        exact ⟨_, .single (SecretSession.step_sub hstep) trivial, rfl⟩
    · exact returns_of_stopped hphase hrun
  | cons event todo ih =>
    intro s hphase
    by_cases hrun : s.sub.out.stage = .running
    · obtain ⟨out, hout⟩ := Emitter.offer_exists hrun SECRET_CHANNEL_CAPACITY subscriberTooSlow event
      have hstep := SecretSubscriber.step_running req served s.watcher (l := .emit) hrun (by simp)
      simp only [SecretSubscriber.taskStep, hphase, SecretSubscriber.outStep, hout, Option.map_some] at hstep
      obtain ⟨t, hreach, hret⟩ := ih { s with sub := { s.sub with phase := .snapshotting todo, out } } rfl
      exact ⟨t, (Reaches.single (SecretSession.step_sub hstep) trivial).trans hreach, hret⟩
    · exact returns_of_stopped hphase hrun

/-- A call that is not rejected comes to hand out its response. -/
theorem SecretSubscriber.Filling.returns {req : SubscribeSecretsRequest} {served : Bool}
    (hserved : req.resumeResourceVersion ≠ "" ∨ served = true) {s : SecretSession} (hs : s.sub.Filling)
    (hrej : s.sub.phase ≠ .rejected) :
    ∃ t, Reaches (SecretSession.step req served) (fun _ _ => True) s t ∧ t.sub.returned = true := by
  cases hphase : s.sub.phase with
  | reading =>
    unfold SecretSubscriber.Filling at hs
    rw [hphase] at hs
    have hrun : s.sub.out.stage = .running := by
      rw [hs]
      rfl
    have hstep := SecretSubscriber.step_running req served s.watcher (l := .read s.watcher.cache.keys 0)
      hrun (by simp)
    simp only [SecretSubscriber.taskStep, hphase, if_pos (List.Perm.refl _)] at hstep
    let content := s.watcher.cache.allInNamespace s.watcher.cache.keys req.ns
    obtain ⟨t, hreach, hret⟩ := returns_of_snapshotting hserved (content.map (secretEvent .snapshot 0))
      { s with sub := { s.sub with phase := .snapshotting (content.map (secretEvent .snapshot 0)), content } }
      rfl
    exact ⟨t, (Reaches.single (SecretSession.step_sub hstep) trivial).trans hreach, hret⟩
  | snapshotting todo => exact returns_of_snapshotting hserved todo s hphase
  | bridging => exact ⟨s, .refl _ s, by rw [SecretSubscriber.returned, hphase]⟩
  | starting => exact ⟨s, .refl _ s, by rw [SecretSubscriber.returned, hphase]⟩
  | watching => exact ⟨s, .refl _ s, by rw [SecretSubscriber.returned, hphase]⟩
  | rejected => exact absurd hphase hrej

/-! ### A snapshot that does not fit -/

/-- While there is room, the snapshot goes into the channel event by event. -/
theorem run_emits (req : SubscribeSecretsRequest) (served : Bool) (sent rest : List SecretEvent) :
    ∀ s : SecretSession, s.sub.phase = .snapshotting (sent ++ rest) → s.sub.out.stage = .running →
      s.sub.out.gone = false → s.sub.out.queue.length + sent.length ≤ SECRET_CHANNEL_CAPACITY →
      run (SecretSession.step req served) s (List.replicate sent.length (.sub .emit)) =
        some { s with sub := { s.sub with
          phase := .snapshotting rest
          out := { s.sub.out with queue := s.sub.out.queue ++ sent.map .ok } } } := by
  induction sent with
  | nil =>
    intro s hphase hrun hgone hlen
    simp only [List.nil_append] at hphase
    simp only [List.length_nil, List.replicate_zero, run_nil, List.map_nil, List.append_nil, ← hphase]
  | cons event sent ih =>
    intro s hphase hrun hgone hlen
    rw [List.length_cons] at hlen
    let out : Emitter Status SecretEvent := { s.sub.out with queue := s.sub.out.queue ++ [.ok event] }
    have hout : SecretOut s.sub.out (.offer event) out := Emitter.offer_room _ hrun hgone (by omega) event
    have hstep := SecretSubscriber.step_running req served s.watcher (l := .emit) hrun (by simp)
    simp only [SecretSubscriber.taskStep, hphase, List.cons_append, SecretSubscriber.outStep, hout,
      Option.map_some] at hstep
    rw [List.length_cons, List.replicate_succ, run_cons, SecretSession.step_sub hstep, Option.bind_some,
      ih { s with sub := { s.sub with phase := .snapshotting (sent ++ rest), out } } rfl hrun hgone
        (by simp only [out, List.length_append, List.length_singleton]; omega)]
    simp [out]

/-- The reader takes what a stream that has ended left in the channel. -/
theorem run_takes (req : SubscribeSecretsRequest) (served : Bool) (queue : List (Except Status SecretEvent)) :
    ∀ s : SecretSession, s.sub.returned = true → s.sub.out.gone = false → s.sub.out.queue = queue →
      ∃ t, run (SecretSession.step req served) s (List.replicate queue.length (.sub .take)) = some t ∧
        t.sub.phase = s.sub.phase ∧ t.sub.out = { s.sub.out with
          queue := []
          received := s.sub.out.received ++ queue } := by
  induction queue with
  | nil =>
    intro s hret hgone hqueue
    refine ⟨s, rfl, rfl, ?_⟩
    rw [List.append_nil, ← hqueue]
  | cons x rest ih =>
    intro s hret hgone hqueue
    let out : Emitter Status SecretEvent :=
      { s.sub.out with queue := rest, received := s.sub.out.received ++ [x] }
    have hstep : s.sub.step req served s.watcher .take = some { s.sub with out } := by
      rw [SecretSubscriber.step, hret, if_pos rfl, SecretSubscriber.outStep,
        Emitter.take_cons _ _ hgone hqueue, Option.map_some]
    have hret' : SecretSubscriber.returned { s.sub with out } = true := hret
    obtain ⟨t, ht, hphase, hout⟩ := ih { s with sub := { s.sub with out } } hret' hgone rfl
    refine ⟨t, ?_, hphase, ?_⟩
    · rw [List.length_cons, List.replicate_succ, run_cons, SecretSession.step_sub hstep, Option.bind_some, ht]
    · rw [hout]
      simp [out]

/-- An event that finds the channel full, and the error after it. -/
theorem run_refused (req : SubscribeSecretsRequest) (served : Bool) {s : SecretSession}
    {event : SecretEvent} {rest : List SecretEvent} (hphase : s.sub.phase = .snapshotting (event :: rest))
    (hrun : s.sub.out.stage = .running) (hgone : s.sub.out.gone = false)
    (hfull : SECRET_CHANNEL_CAPACITY ≤ s.sub.out.queue.length) :
    run (SecretSession.step req served) s [.sub .emit, .sub .report] =
      some { s with sub := { s.sub with
        phase := .snapshotting rest
        out := { s.sub.out with stage := .ended, lost := true } } } := by
  have hemit := SecretSubscriber.step_running req served s.watcher (l := .emit) hrun (by simp)
  simp only [SecretSubscriber.taskStep, hphase, SecretSubscriber.outStep,
    Emitter.offer_full subscriberTooSlow hrun hgone hfull, Option.map_some] at hemit
  rw [run_cons, SecretSession.step_sub hemit, Option.bind_some, run_singleton]
  let out : Emitter Status SecretEvent :=
    { s.sub.out with stage := .failing subscriberTooSlow, lost := true }
  have hreport : SecretOut out .report { s.sub.out with stage := .ended, lost := true } :=
    Emitter.report_full subscriberTooSlow rfl hfull
  refine SecretSession.step_sub ?_
  rw [SecretSubscriber.step, SecretSubscriber.outStep]
  exact congrArg (Option.map _) hreport

/-- **A snapshot that is larger than the channel ends as if it were complete**: the last
event it has room for is followed by the end of the stream. -/
theorem overfull_stream (req : SubscribeSecretsRequest) (served : Bool) (cache : SecretCache)
    (hover : SECRET_CHANNEL_CAPACITY < (cache.allInNamespace cache.keys req.ns).length) :
    ∃ labels t, run (SecretSession.step req served) (.start cache) labels = some t ∧
      t.sub.returned = true ∧ ¬ t.sub.Live ∧ t.sub.out.Finished ∧ t.sub.out.lost = true ∧
      ∃ events : List SecretEvent, t.sub.out.received = events.map .ok := by
  let content := cache.allInNamespace cache.keys req.ns
  let events := content.map (secretEvent .snapshot 0)
  let sent := events.take SECRET_CHANNEL_CAPACITY
  have hlen : SECRET_CHANNEL_CAPACITY < events.length := by
    simp only [events, List.length_map]
    exact hover
  have hsent : sent.length = SECRET_CHANNEL_CAPACITY := by
    rw [List.length_take]
    exact Nat.min_eq_left (Nat.le_of_lt hlen)
  obtain ⟨event, rest, hrest⟩ : ∃ event rest, events.drop SECRET_CHANNEL_CAPACITY = event :: rest := by
    refine List.exists_cons_of_ne_nil fun hnil => ?_
    exact absurd hlen (Nat.not_lt.mpr (List.drop_eq_nil_iff.mp hnil))
  have hsplit : events = sent ++ event :: rest := by
    rw [← hrest, List.take_append_drop]
  let read : SecretSession := { SecretSession.start cache with sub :=
    { SecretSubscriber.new with phase := .snapshotting events, content } }
  have hread : (SecretSession.start cache).step req served (.sub (.read cache.keys 0)) = some read := by
    refine SecretSession.step_sub ?_
    rw [SecretSubscriber.step_running req served _ rfl (by simp), SecretSubscriber.taskStep]
    exact if_pos (List.Perm.refl _)
  let queue : List (Except Status SecretEvent) := sent.map .ok
  let full : Emitter Status SecretEvent := { Emitter.new with queue }
  let filled : SecretSession := { read with sub := { read.sub with
    phase := .snapshotting (event :: rest), out := full } }
  have hfilled : run (SecretSession.step req served) read (List.replicate sent.length (.sub .emit)) =
      some filled := by
    have hphase : read.sub.phase = .snapshotting (sent ++ event :: rest) := by
      rw [← hsplit]
    rw [run_emits req served sent (event :: rest) read hphase rfl rfl
      (by rw [hsent]; exact Nat.le_of_eq (Nat.zero_add _))]
    rfl
  let ended : SecretSession := { filled with sub := { filled.sub with
    phase := .snapshotting rest, out := { full with stage := .ended, lost := true } } }
  have hended : run (SecretSession.step req served) filled [.sub .emit, .sub .report] = some ended := by
    refine run_refused req served rfl rfl rfl ?_
    simp only [filled, full, queue, List.length_map, hsent]
    exact Nat.le_refl _
  obtain ⟨t, ht, hphase, hout⟩ := run_takes req served queue ended rfl rfl rfl
  refine ⟨.sub (.read cache.keys 0) :: (List.replicate sent.length (.sub .emit) ++
    ([.sub .emit, .sub .report] ++ List.replicate queue.length (.sub .take))), t, ?_, ?_, ?_, ?_, ?_, sent, ?_⟩
  · rw [run_cons, hread, Option.bind_some, run_append, hfilled, Option.bind_some, run_append, hended,
      Option.bind_some, ht]
  · simp only [SecretSubscriber.returned, hphase, hout, ended]
    rfl
  · simp [SecretSubscriber.Live, hphase, ended]
  · rw [hout]
    exact ⟨rfl, rfl, rfl⟩
  · rw [hout]
  · rw [hout]
    rfl

/-- `n` secrets of one namespace. -/
def crowdedCache (n : Nat) : SecretCache where
  entries := (List.range n).map fun k =>
    let name := String.ofList (List.replicate k 'a')
    ⟨⟨"trading", name⟩, { name, ns := "trading", schemaVersion := 0, data := [], resourceVersion := "1", loadedAt := 0 }⟩
  nodupKeys := by
    rw [List.nodupKeys_iff_pairwise, List.pairwise_map]
    refine List.nodup_range.imp ?_
    intro i j hne heq
    have hname : List.replicate i 'a' = List.replicate j 'a' := String.ofList_inj.mp (congrArg Key.name heq)
    exact hne (by simpa using congrArg List.length hname)

theorem crowdedCache_length (n : Nat) :
    ((crowdedCache n).allInNamespace (crowdedCache n).keys "trading").length = n := by
  have hkeys : (crowdedCache n).keys =
      (List.range n).map fun k => ⟨"trading", String.ofList (List.replicate k 'a')⟩ := by
    simp [crowdedCache, AList.keys, List.keys, Function.comp_def]
  rw [SecretCache.length_allInNamespace (List.Perm.refl _), hkeys, List.filter_eq_self.mpr]
  · rw [List.length_map, List.length_range]
  · intro k hk
    obtain ⟨i, _, rfl⟩ := List.mem_map.mp hk
    rfl

end Konfig
