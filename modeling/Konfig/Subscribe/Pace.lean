import Konfig.Subscribe.Channel

/-!
# Snapshots of any size

The snapshot of a fresh `Subscribe` is sent by a task beside the reader.  The task does not
wait between two sends, so how much the reader has taken by then is up to the scheduler.

* `ConfigSession.Paced`: before each send the reader has taken all but fewer than
  `CHANNEL_CAPACITY` of the events before it.  `whole_iff_paced`: these are the runs in which
  the whole snapshot is sent and the stream goes live.
* `whole_iff_fits`: a snapshot is sent whole in every schedule exactly when it and the buffered
  events after it fit into the channel.
* `ConfigSubscriber.Serving.reaches`: until the task gives up, a reader that takes what there
  is before each send gets there.
-/

namespace Konfig

open Lib

/-! ### What is sent -/

/-- The next `emit` puts an event into the channel. -/
def ConfigSubscriber.Sends (filter : SubscribeFilter) (sub : ConfigSubscriber) : Prop :=
  match sub.phase with
  | .snapshotting (_ :: _) _ => True
  | .replaying (it :: _) => filterAllowsEvent filter it.1 it.2 = true
  | _ => False

/-- How often the reader has taken. -/
def takeCount (labels : List ConfigSessionLabel) : Nat :=
  labels.countP fun
    | .sub .take => true
    | _ => false

/-- Before an event is sent, the reader has taken all but fewer than `CHANNEL_CAPACITY` of those
before it. -/
def ConfigSession.Paced (filter : SubscribeFilter) (done : List ConfigSessionLabel) (s : ConfigSession) :
    ConfigSessionLabel → Prop
  | .sub .emit => s.sub.Sends filter → s.sub.out.items.length < CHANNEL_CAPACITY + takeCount done
  | _ => True

/-- A step of the task or of its reader, which does not hang up. -/
def ConfigSession.Scheduled (_ : ConfigSession) : ConfigSessionLabel → Prop
  | .pump _ | .sub .hangUp => False
  | _ => True

/-- Such a step, with room for what is sent. -/
def ConfigSession.Roomy (filter : SubscribeFilter) (s : ConfigSession) : ConfigSessionLabel → Prop
  | .sub .emit => s.sub.Sends filter → s.sub.out.queue.length < CHANNEL_CAPACITY
  | .pump _ | .sub .hangUp => False
  | _ => True

/-- The stream is live, or the task has given up. -/
def ConfigSubscriber.Through (sub : ConfigSubscriber) : Prop :=
  sub.phase = .bridging ∨ sub.out.stage ≠ .running

/-- The stream went live, and its channel got the whole snapshot. -/
def ConfigSubscriber.Whole (filter : SubscribeFilter) (sub : ConfigSubscriber) : Prop :=
  sub.phase = .bridging ∧ ∃ now, snapshotEvents filter now sub.content <+: sub.out.items

/-- The task has given up before the stream was live. -/
def ConfigSubscriber.Cut (sub : ConfigSubscriber) : Prop :=
  sub.phase ≠ .bridging ∧ sub.out.stage ≠ .running

/-- The invariant: until it is live the stream runs, and the snapshot goes into the
channel. -/
def ConfigSubscriber.Serving (filter : SubscribeFilter) (sub : ConfigSubscriber) : Prop :=
  sub.out.gone = false ∧
    match sub.phase with
    | .connecting | .attached | .missed => sub.out.stage = .running ∧ sub.out.items = []
    | .snapshotting todo _ => sub.out.stage = .running ∧
        ∃ now, sub.out.items ++ todo = snapshotEvents filter now sub.content
    | .replaying _ => sub.out.stage = .running ∧
        ∃ now, snapshotEvents filter now sub.content <+: sub.out.items
    | .bridging => ∃ now, snapshotEvents filter now sub.content <+: sub.out.items
    | .closed => False

theorem lookup_fresh (front : Nat) (buf : List ReplayEntry) :
    lookupReplay front buf (parseResumeRv "") = none := rfl

/-- An offer does not make the reader hang up. -/
theorem gone_of_offer {out out' : Emitter Status ConfigEvent} {e : ConfigEvent}
    (h : ConfigOut out (.offer e) out') : out'.gone = out.gone := by
  cases Emitter.move_of_step h with
  | unread _ _ | written _ _ _ | refused _ _ _ => rfl

/-- An offer that finds room is taken. -/
theorem offer_kept {out out' : Emitter Status ConfigEvent} {e : ConfigEvent}
    (h : ConfigOut out (.offer e) out') (hgone : out.gone = false)
    (hroom : out.queue.length < CHANNEL_CAPACITY) :
    out'.stage = .running ∧ out'.items = out.items ++ [e] := by
  cases Emitter.move_of_step h with
  | unread _ hg =>
    rw [hgone] at hg
    cases hg
  | written hrun _ _ => exact ⟨hrun, Emitter.items_push e⟩
  | refused _ _ hfull => exact absurd hroom (Nat.not_lt.mpr hfull)

/-- An offer that finds none stops the task. -/
theorem offer_stopped {out out' : Emitter Status ConfigEvent} {e : ConfigEvent}
    (h : ConfigOut out (.offer e) out') (hfull : ¬ out.queue.length < CHANNEL_CAPACITY) :
    out'.stage ≠ .running := by
  cases Emitter.move_of_step h with
  | unread _ _ => exact fun h => by cases h
  | written _ _ hroom => exact absurd hroom hfull
  | refused _ _ _ => exact fun h => by cases h

/-- A step of a live stream. -/
theorem ConfigSubscriber.Serving.live {filter : SubscribeFilter} {sub sub' : ConfigSubscriber}
    (hs : sub.Serving filter) (hgrow : sub.out.items <+: sub'.out.items) (hphase : sub.phase = .bridging)
    (hphase' : sub'.phase = .bridging) (hcontent : sub'.content = sub.content)
    (hgone : sub'.out.gone = sub.out.gone) : sub'.Serving filter := by
  unfold ConfigSubscriber.Serving at hs ⊢
  rw [hphase] at hs
  rw [hphase', hcontent, hgone]
  obtain ⟨hg, now, hpre⟩ := hs
  exact ⟨hg, now, hpre.trans hgrow⟩

/-- A step that leaves the channel's state and content alone. -/
theorem ConfigSubscriber.Serving.congr {filter : SubscribeFilter} {sub : ConfigSubscriber}
    {out : Emitter Status ConfigEvent} (hs : sub.Serving filter) (hstage : out.stage = sub.out.stage)
    (hgone : out.gone = sub.out.gone) (hitems : out.items = sub.out.items) :
    ConfigSubscriber.Serving filter { sub with out } := by
  unfold ConfigSubscriber.Serving at hs ⊢
  simp only [hstage, hgone, hitems]
  exact hs

theorem ConfigSubscriber.Serving.step {filter : SubscribeFilter} {p : Pump} {sub sub' : ConfigSubscriber}
    {l : ConfigSubscriberLabel} (hs : sub.Serving filter) (hfresh : sub.resumeRv = "")
    (hm : sub.Move filter p l sub') (hroom : ConfigSession.Roomy filter ⟨p, sub⟩ (.sub l)) :
    sub'.Serving filter := by
  have hs' := hs
  unfold ConfigSubscriber.Serving at hs'
  cases hm with
  | attach hphase hrun =>
    rw [hphase] at hs'
    exact hs'
  | hit hphase hrun hlook =>
    rw [hfresh, lookup_fresh] at hlook
    cases hlook
  | miss hphase hrun hlook =>
    rw [hphase] at hs'
    exact hs'
  | @readCache snaps now hphase hrun hnodup =>
    rw [hphase] at hs'
    refine ⟨hs'.1, hrun, now, ?_⟩
    show sub.out.items ++ _ = _
    rw [hs'.2.2, List.nil_append]
  | readBuffer hphase hrun =>
    rw [hphase] at hs'
    obtain ⟨hg, _, now, hitems⟩ := hs'
    rw [List.append_nil] at hitems
    refine ⟨hg, hrun, now, ?_⟩
    show snapshotEvents filter now sub.content <+: sub.out.items
    exact ⟨[], by rw [List.append_nil, hitems]⟩
  | snapshot hphase hout =>
    rw [hphase] at hs'
    obtain ⟨hg, _, now, hitems⟩ := hs'
    have hsends : sub.Sends filter := by
      rw [ConfigSubscriber.Sends, hphase]
      trivial
    obtain ⟨hrun', hnew⟩ := offer_kept hout hg (hroom hsends)
    refine ⟨(gone_of_offer hout).trans hg, hrun', now, ?_⟩
    simp only [hnew, List.append_assoc]
    exact hitems
  | replay hphase hallow hout =>
    rw [hphase] at hs'
    obtain ⟨hg, _, now, hpre⟩ := hs'
    have hsends : sub.Sends filter := by
      rw [ConfigSubscriber.Sends, hphase]
      exact hallow
    obtain ⟨hrun', _⟩ := offer_kept hout hg (hroom hsends)
    exact ⟨(gone_of_offer hout).trans hg, hrun', now, hpre.trans (Emitter.items_grow hout)⟩
  | skip hphase hrun hdeny =>
    rw [hphase] at hs'
    exact hs'
  | bridge hphase hrun =>
    rw [hphase] at hs'
    exact ⟨hs'.1, hs'.2.2⟩
  | recv hphase hframe hallow hout =>
    exact hs.live (Emitter.items_grow hout) hphase hphase rfl (gone_of_offer hout)
  | pass hphase hrun hframe hdeny =>
    exact hs.live (List.prefix_refl _) hphase hphase rfl rfl
  | lagged hphase hlag hout =>
    refine hs.live (Emitter.items_grow hout) hphase hphase rfl ?_
    cases Emitter.move_of_step hout with
    | abort _ => rfl
  | overrun hphase hlag hout =>
    refine hs.live (Emitter.items_grow hout) hphase hphase rfl ?_
    cases Emitter.move_of_step hout with
    | abandon _ => rfl
  | finish hphase hl hlag hout =>
    refine hs.live (Emitter.items_grow hout) hphase hphase rfl ?_
    cases Emitter.move_of_step hout with
    | finish _ => rfl
  | @report out hout =>
    -- only a live stream can be failing
    have hgone : out.gone = sub.out.gone ∧ ∃ e, sub.out.stage = .failing e := by
      cases Emitter.move_of_step hout with
      | told hfail _ _ => exact ⟨rfl, _, hfail⟩
      | untold hfail _ => exact ⟨rfl, _, hfail⟩
    obtain ⟨hgone, e, hfail⟩ := hgone
    have hphase : sub.phase = .bridging := by
      rw [hfail] at hs'
      split at hs'
      · cases hs'.2.1
      · cases hs'.2.1
      · cases hs'.2.1
      · cases hs'.2.1
      · cases hs'.2.1
      · assumption
      · exact absurd hs'.2 id
    exact hs.live (Emitter.items_grow hout) hphase hphase rfl hgone
  | take hout =>
    cases Emitter.move_of_step hout with
    | take _ hq => exact hs.congr rfl rfl (Emitter.items_take hq)
  | hangUp hout => exact absurd hroom id

/-- A send that finds no room cuts the snapshot short. -/
theorem ConfigSubscriber.cut_of_sends {filter : SubscribeFilter} {p : Pump} {sub sub' : ConfigSubscriber}
    (hsends : sub.Sends filter) (hm : sub.Move filter p .emit sub')
    (hfull : ¬ sub.out.queue.length < CHANNEL_CAPACITY) : sub'.Cut := by
  unfold ConfigSubscriber.Sends at hsends
  cases hm with
  | snapshot hphase hout => exact ⟨fun h => (by cases h), offer_stopped hout hfull⟩
  | replay hphase hallow hout => exact ⟨fun h => (by cases h), offer_stopped hout hfull⟩
  | skip hphase hrun hdeny =>
    simp only [hphase, hdeny] at hsends
    cases hsends
  | bridge hphase hrun =>
    rw [hphase] at hsends
    exact absurd hsends id
  | finish hphase hl hlag hout => rcases hl with hl | hl <;> cases hl

/-- What was cut short stays so. -/
theorem ConfigSubscriber.Cut.step {filter : SubscribeFilter} {p : Pump} {sub sub' : ConfigSubscriber}
    {l : ConfigSubscriberLabel} (hc : sub.Cut) (hm : sub.Move filter p l sub') : sub'.Cut := by
  obtain ⟨hlive, hstop⟩ := hc
  cases hm with
  | attach _ hrun | hit _ hrun _ | miss _ hrun _ | readCache _ hrun _ | readBuffer _ hrun | skip _ hrun _
  | bridge _ hrun => exact absurd hrun hstop
  | snapshot _ hout | replay _ _ hout => exact absurd (Emitter.running_of_offer hout) hstop
  | recv hphase _ _ _ | pass hphase _ _ _ | lagged hphase _ _ | overrun hphase _ _ | finish hphase _ _ _ =>
    exact absurd hphase hlive
  | report hout =>
    refine ⟨hlive, ?_⟩
    cases Emitter.move_of_step hout with
    | told _ _ _ => exact fun h => by cases h
    | untold _ _ => exact fun h => by cases h
  | take hout =>
    refine ⟨hlive, ?_⟩
    cases Emitter.move_of_step hout with
    | take _ _ => exact hstop
  | hangUp hout =>
    refine ⟨hlive, ?_⟩
    cases Emitter.move_of_step hout with
    | hangUp => exact hstop

theorem ConfigSubscriber.Serving.not_cut {filter : SubscribeFilter} {sub : ConfigSubscriber}
    (hs : sub.Serving filter) : ¬ sub.Cut := by
  rintro ⟨hlive, hstop⟩
  unfold ConfigSubscriber.Serving at hs
  split at hs
  · exact hstop hs.2.1
  · exact hstop hs.2.1
  · exact hstop hs.2.1
  · exact hstop hs.2.1
  · exact hstop hs.2.1
  · exact hlive ‹_›
  · exact hs.2

/-- A stream that is served and has come through has the whole snapshot. -/
theorem ConfigSubscriber.Serving.whole {filter : SubscribeFilter} {sub : ConfigSubscriber}
    (hs : sub.Serving filter) (ht : sub.Through) : sub.Whole filter := by
  have hphase : sub.phase = .bridging := by
    by_contra hlive
    exact hs.not_cut ⟨hlive, ht.resolve_left hlive⟩
  unfold ConfigSubscriber.Serving at hs
  rw [hphase] at hs
  exact ⟨hphase, hs.2⟩

theorem serving_new (filter : SubscribeFilter) : (ConfigSubscriber.new "").Serving filter := ⟨rfl, rfl, rfl⟩

/-! ### Room, in events and takes -/

/-- A step leaves the channel alone or is one step on it. -/
theorem ConfigSubscriber.Move.channel {filter : SubscribeFilter} {p : Pump} {sub sub' : ConfigSubscriber}
    {l : ConfigSubscriberLabel} (hm : sub.Move filter p l sub') :
    (sub'.out = sub.out ∧ l ≠ .take) ∨ ∃ k, ConfigOut sub.out k sub'.out ∧ (k = .take ↔ l = .take) := by
  cases hm with
  | attach | hit | miss | readCache | readBuffer | skip | bridge | pass =>
    exact Or.inl ⟨rfl, fun h => by cases h⟩
  | snapshot _ hout | replay _ _ hout | recv _ _ _ hout | lagged _ _ hout | overrun _ _ hout | report hout
  | hangUp hout => exact Or.inr ⟨_, hout, by simp⟩
  | finish _ hl _ hout =>
    refine Or.inr ⟨_, hout, ?_⟩
    rcases hl with rfl | rfl
    · simp
    · simp
  | take hout => exact Or.inr ⟨_, hout, by simp⟩

/-- What is known of the channel after the labels `done`. -/
structure ConfigSession.Tallied (done : List ConfigSessionLabel) (s : ConfigSession) : Prop where
  received : s.sub.out.received.length = takeCount done
  queue : s.sub.out.queue.length ≤ CHANNEL_CAPACITY
  plain : s.sub.out.stage ≠ .ended → s.sub.out.Plain

theorem takeCount_snoc (done : List ConfigSessionLabel) (l : ConfigSessionLabel) (hl : l ≠ .sub .take) :
    takeCount (done ++ [l]) = takeCount done := by
  rw [takeCount, List.countP_append, List.countP_singleton, if_neg, Nat.add_zero, takeCount]
  split
  · exact absurd rfl hl
  · exact Bool.false_ne_true

theorem takeCount_snoc_take (done : List ConfigSessionLabel) :
    takeCount (done ++ [.sub .take]) = takeCount done + 1 := by
  rw [takeCount, List.countP_append]
  rfl

theorem tallied_of_run {coalesced : Bool} {filter : SubscribeFilter} {resumeRv : String}
    {labels : List ConfigSessionLabel} {s : ConfigSession}
    (hrun : run (ConfigSession.step coalesced filter) (.new resumeRv) labels = some s) : s.Tallied labels := by
  refine run_induction (fun done s => s.Tallied done) ?_ ?_ labels s hrun
  · exact ⟨rfl, Nat.zero_le _, fun _ e he => List.not_mem_nil he⟩
  · intro done s l t _ ih hstep
    obtain ⟨l', p, rfl, hp, rfl⟩ | ⟨l', sub, rfl, hsub, rfl⟩ := ConfigSession.step_cases hstep
    · exact ⟨ih.received.trans (takeCount_snoc _ _ (by simp)).symm, ih.queue, ih.plain⟩
    · rcases (ConfigSubscriber.move_of_step hsub).channel with ⟨hout, hl⟩ | ⟨k, hout, hk⟩
      · refine ⟨?_, ?_, ?_⟩
        · rw [takeCount_snoc _ _ (by simpa using hl)]
          simp only [hout]
          exact ih.received
        · simp only [hout]
          exact ih.queue
        · simp only [hout]
          exact ih.plain
      · refine ⟨?_, Emitter.queue_le_of_step ih.queue hout, Emitter.plain_step ih.plain hout⟩
        by_cases hl : l' = .take
        · rw [hk.mpr hl] at hout
          rw [hl, takeCount_snoc_take, ← ih.received]
          exact Emitter.received_of_take hout
        · rw [takeCount_snoc _ _ (by simpa using hl), ← ih.received]
          exact congrArg List.length (Emitter.received_of_quiet hout fun h => hl (hk.mp h))

/-- While the stream runs, an event finds room exactly when the reader has taken all but fewer than
`CHANNEL_CAPACITY` of those before it. -/
theorem ConfigSession.Tallied.room_iff {done : List ConfigSessionLabel} {s : ConfigSession}
    (ht : s.Tallied done) (hrun : s.sub.out.stage = .running) :
    s.sub.out.queue.length < CHANNEL_CAPACITY ↔
      s.sub.out.items.length < CHANNEL_CAPACITY + takeCount done := by
  have hplain : s.sub.out.Plain := ht.plain (by rw [hrun]; exact fun h => by cases h)
  rw [Emitter.items_length_of_plain hplain, ht.received]
  omega

/-! ### When the snapshot is sent whole -/

section Sent

variable {coalesced : Bool} {filter : SubscribeFilter} {labels : List ConfigSessionLabel} {s : ConfigSession}

/-- Only a stream that runs sends. -/
theorem ConfigSession.running_of_emit {t : ConfigSession}
    (hstep : s.step coalesced filter (.sub .emit) = some t) : s.sub.out.stage = .running := by
  obtain ⟨l', p, hl, _⟩ | ⟨l', sub, hl, hsub, rfl⟩ := ConfigSession.step_cases hstep
  · cases hl
  · cases hl
    cases ConfigSubscriber.move_of_step hsub with
    | snapshot _ hout | replay _ _ hout => exact Emitter.running_of_offer hout
    | skip _ hrun _ | bridge _ hrun => exact hrun
    | finish _ hl _ _ => rcases hl with hl | hl <;> cases hl

/-- A run without a reader that hangs up is served, with each send in its time, or was cut short at a
send that was not. -/
theorem paced_or_cut (hrun : run (ConfigSession.step coalesced filter) (.new "") labels = some s)
    (hstay : .sub .hangUp ∉ labels) :
    (Along (ConfigSession.step coalesced filter) (ConfigSession.Paced filter) (.new "") labels ∧
      s.sub.Serving filter) ∨
    (¬ Along (ConfigSession.step coalesced filter) (ConfigSession.Paced filter) (.new "") labels ∧
      s.sub.Cut) := by
  refine run_induction (fun labels s => .sub .hangUp ∉ labels →
    (Along (ConfigSession.step coalesced filter) (ConfigSession.Paced filter) (.new "") labels ∧
      s.sub.Serving filter) ∨
    (¬ Along (ConfigSession.step coalesced filter) (ConfigSession.Paced filter) (.new "") labels ∧
      s.sub.Cut)) (fun _ => Or.inl ⟨along_nil _ _, serving_new filter⟩) ?_ labels s hrun hstay
  intro done s l t hs ih hstep hstay
  rw [List.mem_append, List.mem_singleton, not_or] at hstay
  rw [along_snoc_iff hs]
  have hmove := ConfigSession.step_cases hstep
  rcases ih hstay.1 with ⟨hpaced, hserv⟩ | ⟨hpaced, hcut⟩
  · obtain ⟨l', p, rfl, hp, rfl⟩ | ⟨l', sub, rfl, hsub, rfl⟩ := hmove
    · exact Or.inl ⟨⟨hpaced, trivial⟩, hserv⟩
    · have hm := ConfigSubscriber.move_of_step hsub
      have hfresh := ConfigSession.resumeRv_run hs
      by_cases hl : l' = .emit
      · subst hl
        have hiff := (tallied_of_run hs).room_iff (ConfigSession.running_of_emit hstep)
        by_cases hsends : s.sub.Sends filter
        · by_cases hroom : s.sub.out.queue.length < CHANNEL_CAPACITY
          · exact Or.inl ⟨⟨hpaced, fun _ => hiff.mp hroom⟩, hserv.step hfresh hm fun _ => hroom⟩
          · refine Or.inr ⟨fun h => hroom (hiff.mpr (h.2 hsends)), ?_⟩
            exact ConfigSubscriber.cut_of_sends hsends hm hroom
        · exact Or.inl ⟨⟨hpaced, fun h => absurd h hsends⟩,
            hserv.step hfresh hm fun h => absurd h hsends⟩
      · have hpass : ConfigSession.Paced filter done s (.sub l') := by
          cases l' with
          | emit => exact absurd rfl hl
          | _ => trivial
        refine Or.inl ⟨⟨hpaced, hpass⟩, hserv.step hfresh hm ?_⟩
        cases l' with
        | emit => exact absurd rfl hl
        | hangUp => exact absurd rfl hstay.2
        | _ => trivial
  · refine Or.inr ⟨fun h => hpaced h.1, ?_⟩
    obtain ⟨l', p, rfl, hp, rfl⟩ | ⟨l', sub, rfl, hsub, rfl⟩ := hmove
    · exact hcut
    · exact hcut.step (ConfigSubscriber.move_of_step hsub)

/-- The snapshot is sent whole exactly in the runs whose sends all come in their time. -/
theorem whole_iff_paced (hrun : run (ConfigSession.step coalesced filter) (.new "") labels = some s)
    (hstay : .sub .hangUp ∉ labels) (hthrough : s.sub.Through) :
    s.sub.Whole filter ↔
      Along (ConfigSession.step coalesced filter) (ConfigSession.Paced filter) (.new "") labels := by
  rcases paced_or_cut hrun hstay with ⟨hpaced, hserv⟩ | ⟨hpaced, hcut⟩
  · exact iff_of_true (hserv.whole hthrough) hpaced
  · exact iff_of_false (fun h => hcut.1 h.1) hpaced

/-- What was served until now and has room at each step is served after it. -/
theorem ConfigSubscriber.Serving.of_reaches {t : ConfigSession} (hs : s.sub.Serving filter)
    (hfresh : s.sub.resumeRv = "")
    (hreach : Reaches (ConfigSession.step coalesced filter) (ConfigSession.Roomy filter) s t) :
    t.sub.Serving filter := by
  obtain ⟨labels, hrun, hroom⟩ := hreach
  refine run_induction_along (fun _ => ConfigSession.Roomy filter) (fun _ t => t.sub.Serving filter)
    hs ?_ labels t hrun hroom
  intro as m l t hm ih hc hstep
  obtain ⟨l', p, rfl, hp, rfl⟩ | ⟨l', sub, rfl, hsub, rfl⟩ := ConfigSession.step_cases hstep
  · exact ih
  · exact ih.step ((ConfigSession.resumeRv_run hm).trans hfresh) (ConfigSubscriber.move_of_step hsub) hc

end Sent

/-! ### Snapshots that fit -/

theorem allowed_cons_of_allow {filter : SubscribeFilter} {it : ReplayItem} (todo : List ReplayItem)
    (hallow : filterAllowsEvent filter it.1 it.2 = true) :
    allowed filter (it :: todo) = it.1 :: allowed filter todo := by
  rw [allowed, List.filter_cons, if_pos hallow, List.map_cons, allowed]

theorem allowed_cons_of_deny {filter : SubscribeFilter} {it : ReplayItem} (todo : List ReplayItem)
    (hdeny : filterAllowsEvent filter it.1 it.2 = false) :
    allowed filter (it :: todo) = allowed filter todo := by
  rw [allowed, List.filter_cons, hdeny, if_neg Bool.false_ne_true, allowed]

/-- What is still to be sent before the stream is live fits into the channel. -/
def ConfigSession.Fits (filter : SubscribeFilter) (s : ConfigSession) : Prop :=
  match s.sub.phase with
  | .snapshotting todo maxRv =>
    s.sub.out.queue.length + todo.length +
      (allowed filter (postSnapshotEvents s.pump.buffer maxRv)).length ≤ CHANNEL_CAPACITY
  | .replaying todo => s.sub.out.queue.length + (allowed filter todo).length ≤ CHANNEL_CAPACITY
  | .bridging => True
  | .connecting | .attached | .missed | .closed => False

theorem ConfigSession.fits_snapshotting {filter : SubscribeFilter} {s : ConfigSession}
    {todo : List ConfigEvent} {maxRv : Nat} (hphase : s.sub.phase = .snapshotting todo maxRv) :
    s.Fits filter ↔ s.sub.out.queue.length + todo.length +
      (allowed filter (postSnapshotEvents s.pump.buffer maxRv)).length ≤ CHANNEL_CAPACITY := by
  unfold ConfigSession.Fits
  rw [hphase]

theorem ConfigSession.fits_replaying {filter : SubscribeFilter} {s : ConfigSession}
    {todo : List ReplayItem} (hphase : s.sub.phase = .replaying todo) :
    s.Fits filter ↔ s.sub.out.queue.length + (allowed filter todo).length ≤ CHANNEL_CAPACITY := by
  unfold ConfigSession.Fits
  rw [hphase]

theorem queue_of_offer {out out' : Emitter Status ConfigEvent} {e : ConfigEvent}
    (h : ConfigOut out (.offer e) out') : out'.queue.length ≤ out.queue.length + 1 := by
  cases Emitter.move_of_step h with
  | unread _ _ | refused _ _ _ => exact Nat.le_succ _
  | written _ _ _ => exact Nat.le_of_eq List.length_append

theorem ConfigSession.Fits.roomy {filter : SubscribeFilter} {s : ConfigSession} {l : ConfigSubscriberLabel}
    (hf : s.Fits filter) (hl : l ≠ .hangUp) : s.Roomy filter (.sub l) := by
  cases l with
  | hangUp => exact absurd rfl hl
  | emit =>
    intro hsends
    unfold ConfigSubscriber.Sends at hsends
    split at hsends
    · rename_i event todo maxRv hphase
      rw [ConfigSession.fits_snapshotting hphase, List.length_cons] at hf
      omega
    · rename_i it todo hphase
      rw [ConfigSession.fits_replaying hphase, allowed_cons_of_allow todo hsends, List.length_cons] at hf
      omega
    · exact absurd hsends id
  | _ => trivial

theorem ConfigSession.Fits.step {filter : SubscribeFilter} {p : Pump} {sub sub' : ConfigSubscriber}
    {l : ConfigSubscriberLabel} (hf : ConfigSession.Fits filter ⟨p, sub⟩) (hs : sub.Serving filter)
    (hm : sub.Move filter p l sub') : ConfigSession.Fits filter ⟨p, sub'⟩ := by
  have hlive : ∀ {t : ConfigSubscriber}, t.phase = .bridging → ConfigSession.Fits filter ⟨p, t⟩ := by
    intro t hphase
    unfold ConfigSession.Fits
    rw [hphase]
    trivial
  cases hm with
  | attach hphase _ | hit hphase _ _ | miss hphase _ _ | readCache hphase _ _ =>
    unfold ConfigSession.Fits at hf
    rw [hphase] at hf
    exact absurd hf id
  | readBuffer hphase hrun =>
    rw [ConfigSession.fits_snapshotting hphase] at hf
    exact hf
  | @snapshot maxRv event todo out hphase hout =>
    rw [ConfigSession.fits_snapshotting hphase, List.length_cons] at hf
    rw [ConfigSession.fits_snapshotting rfl]
    have hqueue := queue_of_offer hout
    simp only at hf ⊢
    omega
  | @replay it todo out hphase hallow hout =>
    rw [ConfigSession.fits_replaying hphase, allowed_cons_of_allow todo hallow, List.length_cons] at hf
    rw [ConfigSession.fits_replaying rfl]
    have hqueue := queue_of_offer hout
    simp only at hf ⊢
    omega
  | @skip it todo hphase hrun hdeny =>
    rw [ConfigSession.fits_replaying hphase, allowed_cons_of_deny todo hdeny] at hf
    exact hf
  | bridge _ _ => exact hlive rfl
  | recv hphase _ _ _ | pass hphase _ _ _ | lagged hphase _ _ | overrun hphase _ _ | finish hphase _ _ _ =>
    exact hlive hphase
  | @report out hout =>
    have hstop : sub.out.stage ≠ .running := by
      cases Emitter.move_of_step hout with
      | told hfail _ _ | untold hfail _ =>
        rw [hfail]
        exact fun h => by cases h
    refine hlive ?_
    by_contra hphase
    exact hs.not_cut ⟨hphase, hstop⟩
  | @take out hout =>
    have hqueue : out.queue.length ≤ sub.out.queue.length := by
      cases Emitter.move_of_step hout with
      | take _ hq =>
        rw [hq]
        exact Nat.le_succ _
    unfold ConfigSession.Fits at hf ⊢
    cases hphase : sub.phase with
    | snapshotting todo maxRv =>
      simp only [hphase] at hf ⊢
      omega
    | replaying todo =>
      simp only [hphase] at hf ⊢
      omega
    | bridging => trivial
    | connecting | attached | missed | closed =>
      rw [hphase] at hf
      exact absurd hf id
  | @hangUp out hout =>
    cases Emitter.move_of_step hout with
    | hangUp => exact hf

section Pacing

variable (coalesced : Bool) (filter : SubscribeFilter)

/-- What fits is sent whole, however the reader is scheduled. -/
theorem ConfigSession.Fits.whole {s t : ConfigSession} (hf : s.Fits filter) (hs : s.sub.Serving filter)
    (hfresh : s.sub.resumeRv = "")
    (hreach : Reaches (ConfigSession.step coalesced filter) ConfigSession.Scheduled s t)
    (hthrough : t.sub.Through) : t.sub.Whole filter := by
  obtain ⟨labels, hrun, hsched⟩ := hreach
  have hinv : t.Fits filter ∧ t.sub.Serving filter := by
    refine run_induction_along (fun _ => ConfigSession.Scheduled)
      (fun _ t => t.Fits filter ∧ t.sub.Serving filter) ⟨hf, hs⟩ ?_ labels t hrun hsched
    rintro as m l t hm ⟨hmf, hms⟩ hc hstep
    obtain ⟨l', p, rfl, hp, rfl⟩ | ⟨l', sub, rfl, hsub, rfl⟩ := ConfigSession.step_cases hstep
    · exact absurd hc id
    · have hmove := ConfigSubscriber.move_of_step hsub
      have hroom : m.Roomy filter (.sub l') := by
        refine hmf.roomy fun hl => ?_
        rw [hl] at hc
        exact hc
      exact ⟨hmf.step hms hmove, hms.step ((ConfigSession.resumeRv_run hm).trans hfresh) hmove hroom⟩
  exact hinv.2.whole hthrough

/-- The stream runs and is read. -/
def ConfigSubscriber.Ready (sub : ConfigSubscriber) : Prop :=
  sub.out.stage = .running ∧ sub.out.gone = false

theorem ConfigSession.step_running {s : ConfigSession} {l : ConfigSubscriberLabel} {sub : ConfigSubscriber}
    (hs : s.sub.Ready) (hl : l ≠ .report ∧ l ≠ .take ∧ l ≠ .hangUp)
    (h : s.sub.taskStep filter s.pump l = some sub) :
    s.step coalesced filter (.sub l) = some { s with sub } := by
  rw [ConfigSession.step, ConfigSubscriber.step, hs.1]
  · simp only [h, Option.map_some]
  · exact hl.1
  · exact hl.2.1
  · exact hl.2.2

/-- An event that is sent to a full channel. -/
theorem reaches_cut {s : ConfigSession} (hs : s.sub.Ready) (hfull : CHANNEL_CAPACITY ≤ s.sub.out.queue.length)
    {phase : Phase} (hphase : phase ≠ .bridging) (event : ConfigEvent)
    (htask : s.sub.taskStep filter s.pump .emit = s.sub.outStep phase s.sub.next (.offer event)) :
    ∃ t, Reaches (ConfigSession.step coalesced filter) ConfigSession.Scheduled s t ∧ t.sub.Cut := by
  rw [ConfigSubscriber.outStep, Emitter.offer_full subscriberTooSlow hs.1 hs.2 hfull] at htask
  have hstep := ConfigSession.step_running coalesced filter hs (l := .emit) (by simp) htask
  exact ⟨_, .single hstep trivial, hphase, fun h => by cases h⟩

/-- An event that is sent to a channel with room. -/
theorem reaches_sent {s : ConfigSession} (hs : s.sub.Ready) (hroom : s.sub.out.queue.length < CHANNEL_CAPACITY)
    (phase : Phase) (event : ConfigEvent)
    (htask : s.sub.taskStep filter s.pump .emit = s.sub.outStep phase s.sub.next (.offer event)) :
    ∃ m, Reaches (ConfigSession.step coalesced filter) ConfigSession.Scheduled s m ∧ m.sub.Ready ∧
      m.sub.phase = phase ∧ m.pump = s.pump ∧ m.sub.out.queue.length = s.sub.out.queue.length + 1 := by
  rw [ConfigSubscriber.outStep, Emitter.offer_room _ hs.1 hs.2 hroom] at htask
  have hstep := ConfigSession.step_running coalesced filter hs (l := .emit) (by simp) htask
  exact ⟨_, .single hstep trivial, hs, rfl, rfl, List.length_append⟩

/-- A replay that does not fit is cut short when nobody takes. -/
theorem replay_cut (todo : List ReplayItem) : ∀ s : ConfigSession, s.sub.Ready →
    s.sub.phase = .replaying todo → s.sub.out.queue.length ≤ CHANNEL_CAPACITY →
    CHANNEL_CAPACITY < s.sub.out.queue.length + (allowed filter todo).length →
    ∃ t, Reaches (ConfigSession.step coalesced filter) ConfigSession.Scheduled s t ∧ t.sub.Cut := by
  induction todo with
  | nil =>
    intro s _ _ hle hlt
    exact absurd hlt (Nat.not_lt.mpr hle)
  | cons it todo ih =>
    intro s hs hphase hle hlt
    by_cases hallow : filterAllowsEvent filter it.1 it.2 = true
    · have htask : s.sub.taskStep filter s.pump .emit =
          s.sub.outStep (.replaying todo) s.sub.next (.offer it.1) := by
        simp only [ConfigSubscriber.taskStep, hphase, if_pos hallow]
      rcases Nat.lt_or_ge s.sub.out.queue.length CHANNEL_CAPACITY with hroom | hfull
      · obtain ⟨m, hreach, hm, hmphase, _, hqueue⟩ := reaches_sent coalesced filter hs hroom _ _ htask
        rw [allowed_cons_of_allow todo hallow, List.length_cons] at hlt
        obtain ⟨t, hreach', hcut⟩ := ih m hm hmphase (by omega) (by omega)
        exact ⟨t, hreach.trans hreach', hcut⟩
      · exact reaches_cut coalesced filter hs hfull (fun h => by cases h) _ htask
    · have hdeny := Bool.eq_false_iff.mpr hallow
      have htask : s.sub.taskStep filter s.pump .emit = some { s.sub with phase := .replaying todo } := by
        simp only [ConfigSubscriber.taskStep, hphase, if_neg hallow]
      have hstep := ConfigSession.step_running coalesced filter hs (l := .emit) (by simp) htask
      rw [allowed_cons_of_deny todo hdeny] at hlt
      obtain ⟨t, hreach', hcut⟩ := ih { s with sub := { s.sub with phase := .replaying todo } } hs rfl hle hlt
      exact ⟨t, (Reaches.single hstep trivial).trans hreach', hcut⟩

/-- A snapshot that does not fit is cut short when nobody takes. -/
theorem snapshot_cut (todo : List ConfigEvent) (maxRv : Nat) : ∀ s : ConfigSession, s.sub.Ready →
    s.sub.phase = .snapshotting todo maxRv → s.sub.out.queue.length ≤ CHANNEL_CAPACITY →
    CHANNEL_CAPACITY < s.sub.out.queue.length + todo.length +
      (allowed filter (postSnapshotEvents s.pump.buffer maxRv)).length →
    ∃ t, Reaches (ConfigSession.step coalesced filter) ConfigSession.Scheduled s t ∧ t.sub.Cut := by
  induction todo with
  | nil =>
    intro s hs hphase hle hlt
    let items := postSnapshotEvents s.pump.buffer maxRv
    have htask : s.sub.taskStep filter s.pump .readBuffer = some { s.sub with phase := .replaying items } := by
      simp only [ConfigSubscriber.taskStep, hphase]
      rfl
    have hread := ConfigSession.step_running coalesced filter hs (by simp) htask
    obtain ⟨t, hreach, hcut⟩ := replay_cut coalesced filter items
      { s with sub := { s.sub with phase := .replaying items } } hs rfl hle hlt
    exact ⟨t, (Reaches.single hread trivial).trans hreach, hcut⟩
  | cons event todo ih =>
    intro s hs hphase hle hlt
    have htask : s.sub.taskStep filter s.pump .emit =
        s.sub.outStep (.snapshotting todo maxRv) s.sub.next (.offer event) := by
      simp only [ConfigSubscriber.taskStep, hphase]
    rcases Nat.lt_or_ge s.sub.out.queue.length CHANNEL_CAPACITY with hroom | hfull
    · obtain ⟨m, hreach, hm, hmphase, hpump, hqueue⟩ := reaches_sent coalesced filter hs hroom _ _ htask
      rw [List.length_cons] at hlt
      obtain ⟨t, hreach', hcut⟩ := ih m hm hmphase (by omega) (by rw [hpump]; omega)
      exact ⟨t, hreach.trans hreach', hcut⟩
    · exact reaches_cut coalesced filter hs hfull (fun h => by cases h) _ htask

/-- **A snapshot is sent whole in every schedule of the task and its reader exactly when all that is
to be sent fits into the channel.** -/
theorem whole_iff_fits {s : ConfigSession} {todo : List ConfigEvent} {maxRv : Nat}
    (hs : s.sub.Serving filter) (hfresh : s.sub.resumeRv = "")
    (hphase : s.sub.phase = .snapshotting todo maxRv)
    (hle : s.sub.out.queue.length ≤ CHANNEL_CAPACITY) :
    (∀ t, Reaches (ConfigSession.step coalesced filter) ConfigSession.Scheduled s t → t.sub.Through →
      t.sub.Whole filter) ↔
    s.sub.out.queue.length + todo.length +
      (allowed filter (postSnapshotEvents s.pump.buffer maxRv)).length ≤ CHANNEL_CAPACITY := by
  constructor
  · intro hall
    by_contra hover
    have hready : s.sub.Ready := by
      unfold ConfigSubscriber.Serving at hs
      rw [hphase] at hs
      exact ⟨hs.2.1, hs.1⟩
    obtain ⟨t, hreach, hcut⟩ := snapshot_cut coalesced filter todo maxRv s hready hphase hle
      (Nat.lt_of_not_le hover)
    exact hcut.1 (hall t hreach (Or.inr hcut.2)).1
  · intro hfits t hreach hthrough
    exact ((ConfigSession.fits_snapshotting hphase).mpr hfits).whole coalesced filter hs hfresh hreach hthrough

/-! ### A reader that takes what there is -/

/-- The reader can take all there is. -/
theorem reaches_empty (queue : List (Except Status ConfigEvent)) : ∀ s : ConfigSession,
    s.sub.Ready → s.sub.out.queue = queue →
    ∃ t, Reaches (ConfigSession.step coalesced filter) (ConfigSession.Roomy filter) s t ∧ t.sub.Ready ∧
      t.sub.phase = s.sub.phase ∧ t.sub.out.queue = [] := by
  induction queue with
  | nil => exact fun s hs hq => ⟨s, .refl _ s, hs, rfl, hq⟩
  | cons x rest ih =>
    intro s hs hq
    let m : ConfigSession := { s with sub := { s.sub with out :=
      { s.sub.out with queue := rest, received := s.sub.out.received ++ [x] } } }
    have hstep : s.step coalesced filter (.sub .take) = some m := by
      rw [ConfigSession.step, ConfigSubscriber.step, ConfigSubscriber.outStep,
        Emitter.take_cons _ _ hs.2 hq]
      rfl
    obtain ⟨t, hreach, ht, hphase, hempty⟩ := ih m hs rfl
    exact ⟨t, (Reaches.single hstep trivial).trans hreach, ht, hphase, hempty⟩

/-- The reader takes all there is, and the task makes one step. -/
theorem reaches_emitted {s : ConfigSession} {phase : Phase} (phase' : Phase) (hs : s.sub.Ready)
    (hphase : s.sub.phase = phase)
    (hemit : ∀ (p : Pump) (sub : ConfigSubscriber), sub.Ready → sub.phase = phase → sub.out.queue = [] →
      ∃ sub', sub.taskStep filter p .emit = some sub' ∧ sub'.Ready ∧ sub'.phase = phase') :
    ∃ t, Reaches (ConfigSession.step coalesced filter) (ConfigSession.Roomy filter) s t ∧ t.sub.Ready ∧
      t.sub.phase = phase' := by
  obtain ⟨m, hreach, hm, hmphase, hempty⟩ := reaches_empty coalesced filter _ s hs rfl
  obtain ⟨sub, hsub, hready, hphase'⟩ := hemit m.pump m.sub hm (hmphase.trans hphase) hempty
  have hroom : m.Roomy filter (.sub .emit) := by
    intro _
    rw [hempty]
    decide
  have hstep := ConfigSession.step_running coalesced filter hm (l := .emit) (by simp) hsub
  exact ⟨_, hreach.trans (.single hstep hroom), hready, hphase'⟩

/-- An event that is offered to an empty channel. -/
theorem ConfigSubscriber.Ready.outStep {sub : ConfigSubscriber} (hs : sub.Ready)
    (hempty : sub.out.queue = []) (phase : Phase) (event : ConfigEvent) :
    ∃ sub', sub.outStep phase sub.next (.offer event) = some sub' ∧ sub'.Ready ∧ sub'.phase = phase := by
  have hroom : sub.out.queue.length < CHANNEL_CAPACITY := by
    rw [hempty]
    decide
  rw [ConfigSubscriber.outStep, Emitter.offer_room _ hs.1 hs.2 hroom]
  exact ⟨_, rfl, hs, rfl⟩

theorem reaches_snapshot_sent (todo : List ConfigEvent) (maxRv : Nat) : ∀ s : ConfigSession,
    s.sub.Ready → s.sub.phase = .snapshotting todo maxRv →
    ∃ t, Reaches (ConfigSession.step coalesced filter) (ConfigSession.Roomy filter) s t ∧ t.sub.Ready ∧
      t.sub.phase = .snapshotting [] maxRv := by
  induction todo with
  | nil => exact fun s hs hphase => ⟨s, .refl _ s, hs, hphase⟩
  | cons event todo ih =>
    intro s hs hphase
    obtain ⟨m, hreach, hm, hmphase⟩ := reaches_emitted coalesced filter
      (.snapshotting todo maxRv) hs hphase fun p sub hsub hsphase hempty => by
        simp only [ConfigSubscriber.taskStep, hsphase]
        exact hsub.outStep hempty _ event
    obtain ⟨t, hreach', ht, htphase⟩ := ih m hm hmphase
    exact ⟨t, hreach.trans hreach', ht, htphase⟩

theorem reaches_bridging (todo : List ReplayItem) : ∀ s : ConfigSession,
    s.sub.Ready → s.sub.phase = .replaying todo →
    ∃ t, Reaches (ConfigSession.step coalesced filter) (ConfigSession.Roomy filter) s t ∧
      t.sub.phase = .bridging := by
  induction todo with
  | nil =>
    intro s hs hphase
    obtain ⟨t, hreach, _, htphase⟩ := reaches_emitted coalesced filter .bridging hs
      hphase fun p sub hsub hsphase _ => by
        simp only [ConfigSubscriber.taskStep, hsphase]
        exact ⟨_, rfl, hsub, rfl⟩
    exact ⟨t, hreach, htphase⟩
  | cons it todo ih =>
    intro s hs hphase
    obtain ⟨m, hreach, hm, hmphase⟩ := reaches_emitted coalesced filter (.replaying todo)
      hs hphase fun p sub hsub hsphase hempty => by
        simp only [ConfigSubscriber.taskStep, hsphase]
        split
        · exact hsub.outStep hempty _ it.1
        · exact ⟨_, rfl, hsub, rfl⟩
    obtain ⟨t, hreach', htphase⟩ := ih m hm hmphase
    exact ⟨t, hreach.trans hreach', htphase⟩

theorem reaches_bridging_of_snapshotting (todo : List ConfigEvent) (maxRv : Nat) {s : ConfigSession}
    (hs : s.sub.Ready) (hphase : s.sub.phase = .snapshotting todo maxRv) :
    ∃ t, Reaches (ConfigSession.step coalesced filter) (ConfigSession.Roomy filter) s t ∧
      t.sub.phase = .bridging := by
  obtain ⟨m, hreach, hm, hmphase⟩ := reaches_snapshot_sent coalesced filter todo maxRv s hs hphase
  let items := postSnapshotEvents m.pump.buffer maxRv
  have htask : m.sub.taskStep filter m.pump .readBuffer = some { m.sub with phase := .replaying items } := by
    simp only [ConfigSubscriber.taskStep, hmphase]
    rfl
  have hread := ConfigSession.step_running coalesced filter hm (by simp) htask
  obtain ⟨t, hreach', htphase⟩ := reaches_bridging coalesced filter items
    { m with sub := { m.sub with phase := .replaying items } } hm rfl
  exact ⟨t, (hreach.trans (.single hread trivial)).trans hreach', htphase⟩

/-- A fresh stream that is being served can be read up to its live phase. -/
theorem ConfigSubscriber.Serving.reaches {s : ConfigSession} (hs : s.sub.Serving filter)
    (hfresh : s.sub.resumeRv = "") :
    ∃ t, Reaches (ConfigSession.step coalesced filter) (ConfigSession.Roomy filter) s t ∧
      t.sub.phase = .bridging := by
  have hmissed : ∀ m : ConfigSession, m.sub.Ready → m.sub.phase = .missed →
      ∃ t, Reaches (ConfigSession.step coalesced filter) (ConfigSession.Roomy filter) m t ∧
        t.sub.phase = .bridging := by
    intro m hm hphase
    let sub : ConfigSubscriber := { m.sub with phase := .snapshotting [] 0, content := [] }
    have htask : m.sub.taskStep filter m.pump (.readCache [] 0) = some sub := by
      simp only [ConfigSubscriber.taskStep, hphase]
      rfl
    have hread := ConfigSession.step_running coalesced filter hm (by simp) htask
    obtain ⟨t, hreach, htphase⟩ :=
      reaches_bridging_of_snapshotting coalesced filter [] 0 (s := { m with sub }) hm rfl
    exact ⟨t, (Reaches.single hread trivial).trans hreach, htphase⟩
  have hattached : ∀ m : ConfigSession, m.sub.Ready → m.sub.phase = .attached → m.sub.resumeRv = "" →
      ∃ t, Reaches (ConfigSession.step coalesced filter) (ConfigSession.Roomy filter) m t ∧
        t.sub.phase = .bridging := by
    intro m hm hphase hrv
    have htask : m.sub.taskStep filter m.pump (.lookup 0) = some { m.sub with phase := .missed } := by
      simp only [ConfigSubscriber.taskStep, hphase, hrv, lookup_fresh]
    have hlook := ConfigSession.step_running coalesced filter hm (by simp) htask
    obtain ⟨t, hreach, htphase⟩ := hmissed { m with sub := { m.sub with phase := .missed } } hm rfl
    exact ⟨t, (Reaches.single hlook trivial).trans hreach, htphase⟩
  obtain ⟨hgone, hs⟩ := hs
  cases hphase : s.sub.phase with
  | connecting =>
    rw [hphase] at hs
    let sub : ConfigSubscriber := { s.sub with phase := .attached, next := s.pump.sent.length }
    have htask : s.sub.taskStep filter s.pump .attach = some sub := by
      simp only [ConfigSubscriber.taskStep, hphase]
      rfl
    have hattach := ConfigSession.step_running coalesced filter ⟨hs.1, hgone⟩ (by simp) htask
    obtain ⟨t, hreach, htphase⟩ := hattached { s with sub } ⟨hs.1, hgone⟩ rfl hfresh
    exact ⟨t, (Reaches.single hattach trivial).trans hreach, htphase⟩
  | attached =>
    rw [hphase] at hs
    exact hattached s ⟨hs.1, hgone⟩ hphase hfresh
  | missed =>
    rw [hphase] at hs
    exact hmissed s ⟨hs.1, hgone⟩ hphase
  | snapshotting todo maxRv =>
    rw [hphase] at hs
    exact reaches_bridging_of_snapshotting coalesced filter todo maxRv ⟨hs.1, hgone⟩ hphase
  | replaying todo =>
    rw [hphase] at hs
    exact reaches_bridging coalesced filter todo s ⟨hs.1, hgone⟩ hphase
  | bridging => exact ⟨s, .refl _ s, hphase⟩
  | closed =>
    rw [hphase] at hs
    exact absurd hs id

/-- A stream that is being served comes to have the whole snapshot, by steps of the task and its reader
alone. -/
theorem ConfigSubscriber.Serving.reaches_whole {s : ConfigSession} (hs : s.sub.Serving filter)
    (hfresh : s.sub.resumeRv = "") :
    ∃ t, Reaches (ConfigSession.step coalesced filter) ConfigSession.Scheduled s t ∧ t.sub.Whole filter := by
  obtain ⟨t, hreach, hphase⟩ := hs.reaches coalesced filter hfresh
  refine ⟨t, hreach.mono fun m l hroom => ?_, (hs.of_reaches hfresh hreach).whole (Or.inl hphase)⟩
  cases l with
  | pump _ => exact hroom
  | sub k =>
    cases k with
    | hangUp => exact hroom
    | _ => trivial

end Pacing

section Read

variable {coalesced : Bool} {filter : SubscribeFilter} {labels : List ConfigSessionLabel} {s : ConfigSession}

/-- A run with a reader that stays is served, or was cut short. -/
theorem serving_or_cut (hrun : run (ConfigSession.step coalesced filter) (.new "") labels = some s)
    (hstay : .sub .hangUp ∉ labels) : s.sub.Serving filter ∨ s.sub.Cut :=
  (paced_or_cut hrun hstay).imp And.right And.right

/-- **Right after the cache is read**, with the channel still empty. -/
theorem whole_iff_read {snaps : List ConfigSnapshot} {now : Instant}
    (hrun : run (ConfigSession.step coalesced filter) (.new "") (labels ++ [.sub (.readCache snaps now)]) = some s)
    (hstay : .sub .hangUp ∉ labels) :
    (∀ t, Reaches (ConfigSession.step coalesced filter) ConfigSession.Scheduled s t → t.sub.Through →
      t.sub.Whole filter) ↔
    (snapshotEvents filter now snaps).length +
      (allowed filter (postSnapshotEvents s.pump.buffer (maxSnapshotRv snaps))).length ≤ CHANNEL_CAPACITY := by
  obtain ⟨m, hm, hstep⟩ := run_snoc.mp hrun
  have htally := tallied_of_run hm
  obtain ⟨l', p, hl, _⟩ | ⟨l', sub, hl, hsub, rfl⟩ := ConfigSession.step_cases hstep
  · cases hl
  cases hl
  have hmove := ConfigSubscriber.move_of_step hsub
  have hserving : m.sub.Serving filter := by
    refine (serving_or_cut hm hstay).resolve_right fun hcut => hcut.2 ?_
    cases hmove with
    | readCache _ hrunning _ => exact hrunning
    | finish _ hl _ _ => rcases hl with hl | hl <;> cases hl
  have hserving' := hserving.step (ConfigSession.resumeRv_run hm) hmove trivial
  cases hmove with
  | finish _ hl _ _ => rcases hl with hl | hl <;> cases hl
  | readCache hphase hrunning hnodup =>
    have hempty : m.sub.out.queue.length = 0 := by
      unfold ConfigSubscriber.Serving at hserving
      rw [hphase] at hserving
      have hlen := Emitter.items_length_of_plain (htally.plain (by rw [hrunning]; exact fun h => by cases h))
      rw [hserving.2.2, List.length_nil] at hlen
      omega
    have hfits := whole_iff_fits coalesced filter (s := { m with sub := { m.sub with
      phase := .snapshotting (snapshotEvents filter now snaps) (maxSnapshotRv snaps), content := snaps } })
      hserving' (ConfigSession.resumeRv_run hm) rfl htally.queue
    rw [hfits]
    simp only [hempty, Nat.zero_add]

end Read

end Konfig
