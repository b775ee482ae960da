import Konfig.Secrets.Session

/-!
# What a secret stream delivers

Two questions about the events a `SubscribeSecrets` stream carries: whether a fresh
subscriber misses a version, and whether it sees only the secrets it asked for.

The handler reads the cache before it subscribes.  A version that is processed and
sent between the two is in neither, and so is one that a relist has sent and not yet
committed when the cache is read.  `SecretSession.Unmissed` is that neither happens;
then the snapshot and the broadcast cover every version
(`secrets_lose_nothing`).

The names of the request are not looked at, on any path: what is delivered is what
the namespace yields (`secrets_confined`).
-/

namespace Konfig

open Lib

/-- The event carries the version `v`. -/
def SecretEvent.Shows (e : SecretEvent) (v : SecretSnapshot) : Prop :=
  ∃ r ∈ e.secret, r.ns = v.ns ∧ r.name = v.name ∧ r.schemaVersion = v.schemaVersion ∧
    r.dataJson = v.dataJson ∧ r.resourceVersion = v.resourceVersion

instance SecretEvent.decidableShows (e : SecretEvent) (v : SecretSnapshot) : Decidable (e.Shows v) :=
  inferInstanceAs (Decidable (∃ r ∈ e.secret, _))

theorem shows_of_same {type : EventType} {now : Instant} {c v : SecretSnapshot} (h : c.Same v) :
    (secretEvent type now c).Shows v := ⟨_, rfl, h⟩

/-- Two versions that one event carries are the same. -/
theorem SecretEvent.Shows.same {e : SecretEvent} {c v : SecretSnapshot} (hc : e.Shows c) (hv : e.Shows v) :
    c.Same v := by
  obtain ⟨r, hr, h1, h2, h3, h4, h5⟩ := hc
  obtain ⟨r', hr', h1', h2', h3', h4', h5'⟩ := hv
  rw [Option.mem_def] at hr hr'
  rw [hr, Option.some.injEq] at hr'
  subst hr'
  exact ⟨h1.symm.trans h1', h2.symm.trans h2', h3.symm.trans h3', h4.symm.trans h4', h5.symm.trans h5'⟩

/-! ### Nothing is missed -/

/-- Every newest version is in what was read, in the broadcasts `live`, or about to be
broadcast. -/
def Carried (w : SecretWatcher) (content : List SecretSnapshot) (live : List SecretEvent) : Prop :=
  ∀ name v, w.newest name = some v → (∃ c ∈ content, c.Same v) ∨ (∃ e ∈ live, e.Shows v) ∨
    ∃ e, w.pending = some e ∧ e.eventType = .modified ∧ e.Shows v

/-- A processed version is about to be broadcast, and was not in the way of another. -/
theorem Carried.process {w w' : SecretWatcher} {content : List SecretSnapshot} {live : List SecretEvent}
    (h : Carried w content live) (hp : w.pending = none) {snap : SecretSnapshot} {now : Instant}
    (ha : w'.applied = w.applied ++ [snap]) (hp' : w'.pending = some (secretEvent .modified now snap)) :
    Carried w' content live := by
  intro name v hv
  rw [newest_concat w w' snap name ha] at hv
  by_cases hn : snap.name = name
  · rw [if_pos hn, Option.some.injEq] at hv
    exact Or.inr (Or.inr ⟨_, hp', rfl, shows_of_same (hv ▸ .refl snap)⟩)
  · rw [if_neg hn] at hv
    rcases h name v hv with hc | hl | ⟨e, he, _⟩
    · exact Or.inl hc
    · exact Or.inr (Or.inl hl)
    · rw [hp] at he
      cases he

theorem Carried.quiet {w w' : SecretWatcher} {content : List SecretSnapshot} {live : List SecretEvent}
    (h : Carried w content live) (hp : w.pending = none) (ha : w'.applied = w.applied) :
    Carried w' content live := by
  intro name v hv
  rw [newest_congr ha] at hv
  rcases h name v hv with hc | hl | ⟨e, he, _⟩
  · exact Or.inl hc
  · exact Or.inr (Or.inl hl)
  · rw [hp] at he
    cases he

theorem Carried.congr {w w' : SecretWatcher} {content : List SecretSnapshot} {live : List SecretEvent}
    (h : Carried w content live) (hp : w'.pending = w.pending) (ha : w'.applied = w.applied) :
    Carried w' content live := by
  intro name v hv
  rw [newest_congr ha] at hv
  rw [hp]
  exact h name v hv

/-- The version of a secret that was processed last is about to be broadcast. -/
def SecretWatcher.Announces (w : SecretWatcher) (name : String) : Prop :=
  ∀ v ∈ w.newest name, ∃ e ∈ w.pending, e.eventType = .modified ∧ e.Shows v

instance (w : SecretWatcher) (name : String) : Decidable (w.Announces name) :=
  inferInstanceAs (Decidable (∀ v ∈ w.newest name, _))

/-- Every newest version is in the cache or about to be broadcast. -/
def SecretWatcher.Current (ns : String) (w : SecretWatcher) : Prop :=
  ∀ v ∈ w.applied, w.Holds ns v.name ∨ w.Announces v.name

instance (ns : String) (w : SecretWatcher) : Decidable (w.Current ns) :=
  inferInstanceAs (Decidable (∀ v ∈ w.applied, _))

/-- What was read from the cache covers the versions it holds. -/
theorem carried_of_read {w : SecretWatcher} {ns : String} (hcur : w.Current ns) {order : List Key}
    (horder : order.Perm w.cache.keys) : Carried w (w.cache.allInNamespace order ns) [] := by
  intro name v hv
  have hmem : v ∈ w.applied.filter fun v => v.name = name := List.mem_of_getLast? hv
  rw [List.mem_filter, decide_eq_true_eq] at hmem
  obtain ⟨hmem, hname⟩ := hmem
  subst hname
  rcases hcur v hmem with hold | hann
  · obtain ⟨c, hc, hsame⟩ := hold v hv
    rw [Option.mem_def] at hc
    refine Or.inl ⟨c, ?_, hsame⟩
    refine List.mem_filterMap.mpr ⟨⟨ns, v.name⟩, List.mem_filter.mpr ⟨?_, by simp⟩, hc⟩
    refine horder.mem_iff.mpr ?_
    rw [← AList.mem_keys, ← AList.lookup_isSome, hc]
    rfl
  · obtain ⟨e, he, htype, hs⟩ := hann v hv
    exact Or.inr (Or.inr ⟨e, he, htype, hs⟩)

/-- When the cache is read, no relist has broadcast a newest version that it has not
committed, which on a first connection it cannot; and what is broadcast between the
read and the subscription is a deletion or in what was read. -/
def SecretSession.Unmissed (req : SubscribeSecretsRequest) (s : SecretSession) : SecretLabel → Prop
  | .sub (.read _ _) => s.watcher.batchRelist = true → s.watcher.Current req.ns
  | .watcher .send =>
    match s.sub.phase with
    | .snapshotting _ => ∀ e ∈ s.watcher.pending, e.eventType = .deleted ∨ ∃ c ∈ s.sub.content, e.Shows c
    | _ => True
  | _ => True

instance (req : SubscribeSecretsRequest) (s : SecretSession) :
    ∀ l, Decidable (SecretSession.Unmissed req s l)
  | .sub (.read _ _) => inferInstanceAs (Decidable (_ → _))
  | .watcher .send => by
    unfold SecretSession.Unmissed
    exact match s.sub.phase with
    | .snapshotting _ => inferInstanceAs (Decidable (∀ e ∈ s.watcher.pending, _))
    | .reading | .bridging | .starting | .watching | .rejected => isTrue trivial
  | .watcher (.event _ _) | .watcher (.disconnect _) | .watcher (.foreign _) | .watcher (.foreignStale _)
  | .sub .emit | .sub .join | .sub .recv | .sub .senderGone | .sub .started | .sub (.startFailed _)
  | .sub (.raw _ _) | .sub .rawFailed | .sub .rawEnded | .sub .report | .sub .drain | .sub .take
  | .sub .hangUp => isTrue trivial

/-- The invariant: what the channel has and is still to get. -/
def SecretSession.Covers (s : SecretSession) : Prop :=
  s.sub.out.stage = .running →
    match s.sub.phase with
    | .reading => s.sub.out.items = []
    | .snapshotting todo => Carried s.watcher s.sub.content [] ∧
        ∃ now, s.sub.out.items ++ todo = s.sub.content.map (secretEvent .snapshot now)
    | .bridging => ∃ now since, since ≤ s.sub.next ∧
        s.sub.out.items = s.sub.content.map (secretEvent .snapshot now) ++
          (s.watcher.sent.take s.sub.next).drop since ∧
        s.sub.next ≤ s.watcher.sent.length ∧
        Carried s.watcher s.sub.content (s.watcher.sent.drop since)
    | _ => True

theorem covers_start (cache : SecretCache) : (SecretSession.start cache).Covers := fun _ => rfl

/-- A send appends to what a subscriber is still to receive. -/
theorem Carried.send {w : SecretWatcher} {content : List SecretSnapshot} {live : List SecretEvent}
    {e : SecretEvent} (h : Carried w content live) (hp : w.pending = some e) :
    Carried { w with pending := none, sent := w.sent ++ [e] } content (live ++ [e]) := by
  intro name v hv
  rcases h name v hv with hc | ⟨e', he', hs⟩ | ⟨e', he', _, hs⟩
  · exact Or.inl hc
  · exact Or.inr (Or.inl ⟨e', List.mem_append_left _ he', hs⟩)
  · rw [hp, Option.some.injEq] at he'
    exact Or.inr (Or.inl ⟨e, List.mem_append_right _ (List.mem_singleton.mpr rfl), he' ▸ hs⟩)

/-- A send before the subscription, of something that was read. -/
theorem Carried.send_read {w : SecretWatcher} {content : List SecretSnapshot} {e : SecretEvent}
    (h : Carried w content []) (hp : w.pending = some e)
    (hok : e.eventType = .deleted ∨ ∃ c ∈ content, e.Shows c) :
    Carried { w with pending := none, sent := w.sent ++ [e] } content [] := by
  intro name v hv
  rcases h name v hv with hc | ⟨e', he', _⟩ | ⟨e', he', htype, hs⟩
  · exact Or.inl hc
  · cases he'
  · rw [hp, Option.some.injEq] at he'
    subst he'
    rcases hok with hdel | ⟨c, hc, hcs⟩
    · rw [htype] at hdel
      cases hdel
    · exact Or.inl ⟨c, hc, hcs.same hs⟩

/-- What a watcher's step does to `Carried`, in both phases. -/
theorem Carried.watcher_step {ns : String} {w w' : SecretWatcher} {l : SecretWatcherLabel}
    {content : List SecretSnapshot} {live : List SecretEvent} (h : Carried w content live)
    (hstep : w.step ns l = some w') (hl : l ≠ .send) : w'.sent = w.sent ∧ Carried w' content live := by
  cases SecretWatcher.move_of_step hstep with
  | applied hns hp => exact ⟨rfl, h.process hp rfl rfl⟩
  | buffered hns hr hp => exact ⟨rfl, h.process hp rfl rfl⟩
  | deleted hns hp => exact ⟨rfl, h.quiet hp rfl⟩
  | committed hr hp => exact ⟨rfl, h.quiet hp rfl⟩
  | opened hb hp => exact ⟨rfl, h.quiet hp rfl⟩
  | idle hp => exact ⟨rfl, h⟩
  | sent hp => exact absurd rfl hl
  | disconnected hp => exact ⟨rfl, h.quiet hp rfl⟩
  | foreign hns => exact ⟨rfl, h.congr rfl rfl⟩
  | foreignStale => exact ⟨rfl, h.congr rfl rfl⟩

theorem SecretSession.Covers.watcher_step {req : SubscribeSecretsRequest} {s : SecretSession}
    {w : SecretWatcher} {l : SecretWatcherLabel} (hs : s.Covers) (h : s.watcher.step req.ns l = some w)
    (hok : SecretSession.Unmissed req s (.watcher l)) :
    SecretSession.Covers { s with watcher := w } := by
  intro hrun
  have hs' := hs hrun
  cases hphase : s.sub.phase with
  | reading =>
    rw [hphase] at hs'
    exact hs'
  | snapshotting todo =>
    rw [hphase] at hs'
    refine ⟨?_, hs'.2⟩
    by_cases hl : l = .send
    · subst hl
      cases SecretWatcher.move_of_step h with
      | sent hp =>
        simp only [SecretSession.Unmissed, hphase] at hok
        exact hs'.1.send_read hp (hok _ hp)
    · exact (hs'.1.watcher_step h hl).2
  | bridging =>
    rw [hphase] at hs'
    obtain ⟨now, since, hle, hitems, hnext, hcov⟩ := hs'
    by_cases hl : l = .send
    · subst hl
      cases SecretWatcher.move_of_step h with
      | @sent e hp =>
        refine ⟨now, since, hle, ?_, ?_, ?_⟩
        · rw [hitems, List.take_append_of_le_length hnext]
        · rw [List.length_append]
          exact Nat.le_add_right_of_le hnext
        · show Carried _ _ ((s.watcher.sent ++ [e]).drop since)
          rw [List.drop_append_of_le_length (Nat.le_trans hle hnext)]
          exact hcov.send hp
    · obtain ⟨hsent, hcov'⟩ := hcov.watcher_step h hl
      refine ⟨now, since, hle, ?_, ?_, ?_⟩
      · rw [hsent]
        exact hitems
      · rw [hsent]
        exact hnext
      · rw [hsent]
        exact hcov'
  | starting => trivial
  | watching => trivial
  | rejected => trivial

/-- What the reader does is not seen. -/
theorem SecretSession.Covers.reader {s : SecretSession} {out : Emitter Status SecretEvent}
    {l : EmitterLabel Status SecretEvent} (hs : s.Covers) (hout : SecretOut s.sub.out l out)
    (hl : l = .take ∨ l = .hangUp) : SecretSession.Covers { s with sub := { s.sub with out } } := by
  intro hrun
  have hitems : out.items = s.sub.out.items := by
    refine Emitter.items_of_quiet hout ?_
    rcases hl with rfl | rfl <;> exact nofun
  have hstage : out.stage = s.sub.out.stage := by
    rcases hl with rfl | rfl
    · cases Emitter.move_of_step hout with
      | take _ _ => rfl
    · cases Emitter.move_of_step hout with
      | hangUp => rfl
  have hs' := hs (hstage ▸ hrun)
  simp only [hitems]
  exact hs'

theorem SecretSession.Covers.sub_step {req : SubscribeSecretsRequest} {served : Bool} {s : SecretSession}
    {sub : SecretSubscriber} {l : SecretSubscriberLabel} (hs : s.Covers)
    (hfresh : s.watcher.Fresh req.ns) (h : s.sub.step req served s.watcher l = some sub)
    (hok : SecretSession.Unmissed req s (.sub l)) : SecretSession.Covers { s with sub } := by
  intro hrun
  cases SecretSubscriber.move_of_step h with
  | @read order now hphase hrun' horder =>
    have hs' := hs hrun'
    rw [hphase] at hs'
    refine ⟨carried_of_read ?_ horder, now, by rw [hs', List.nil_append]⟩
    intro v hv
    cases hb : s.watcher.batchRelist with
    | true => exact hok hb v hv
    | false => exact Or.inl ((hfresh hb).2 v.name)
  | @emit event todo out hphase hout =>
    have hs' := hs (Emitter.running_of_offer hout)
    rw [hphase] at hs'
    obtain ⟨hcov, now, hitems⟩ := hs'
    refine ⟨hcov, now, ?_⟩
    rcases Emitter.items_of_offer hout with ⟨_, hnew⟩ | ⟨hstop, _⟩
    · rw [hnew, List.append_assoc]
      exact hitems
    · exact absurd hrun hstop
  | resume hphase hrun' hreq => trivial
  | subscribe hphase hrun' hreq =>
    have hs' := hs hrun'
    rw [hphase] at hs'
    obtain ⟨hcov, now, hitems⟩ := hs'
    refine ⟨now, s.watcher.sent.length, Nat.le_refl _, ?_, Nat.le_refl _, ?_⟩
    · rw [List.append_nil] at hitems
      rw [List.take_length, List.drop_length, List.append_nil]
      exact hitems
    · rw [List.drop_length]
      exact hcov
  | reject hphase hrun' => trivial
  | @recv event out hphase hsent hout =>
    have hs' := hs (Emitter.running_of_offer hout)
    rw [hphase] at hs'
    obtain ⟨now, since, hle, hitems, hnext, hcov⟩ := hs'
    simp only [hphase]
    obtain ⟨hlt, hget⟩ := List.getElem?_eq_some_iff.mp hsent
    refine ⟨now, since, Nat.le_succ_of_le hle, ?_, hlt, hcov⟩
    rcases Emitter.items_of_offer hout with ⟨_, hnew⟩ | ⟨hstop, _⟩
    · rw [hnew, hitems, List.append_assoc, List.take_succ_eq_append_getElem hlt,
        List.drop_append_of_le_length (by rw [List.length_take]; omega), hget]
    · exact absurd hrun hstop
  | lagged hphase hlag hout => exact absurd hrun (Emitter.not_running_of_abort hout)
  | started hphase hrun' => trivial
  | startFailed hphase hout => exact absurd hrun (Emitter.not_running_of_abort hout)
  | raw hphase hoffered hevent hout =>
    simp only [hphase]
  | rawSkipped hphase => exact hs hrun
  | rawError hphase hout => exact absurd hrun (Emitter.not_running_of_abort hout)
  | rawFailed hphase hout =>
    cases Emitter.move_of_step hout with
    | abandon _ => cases hrun
  | overrun hphase hlag hout =>
    cases Emitter.move_of_step hout with
    | abandon _ => cases hrun
  | finish hphase hl hlag hout =>
    cases Emitter.move_of_step hout with
    | finish _ => cases hrun
  | report hout =>
    cases Emitter.move_of_step hout with
    | told _ _ _ => cases hrun
    | untold _ _ => cases hrun
  | take hret hout =>
    exact hs.reader hout (Or.inl rfl) hrun
  | hangUp hret hout =>
    exact hs.reader hout (Or.inr rfl) hrun

/-- The invariant along a run in which nothing is missed. -/
theorem covers_of_run {req : SubscribeSecretsRequest} {served : Bool} {cache : SecretCache}
    {labels : List SecretLabel} {s : SecretSession}
    (hrun : run (SecretSession.step req served) (.start cache) labels = some s)
    (hok : Along (SecretSession.step req served) (fun _ => SecretSession.Unmissed req) (.start cache) labels) :
    s.watcher.Fresh req.ns ∧ s.Covers := by
  refine run_induction_along (fun _ => SecretSession.Unmissed req)
    (fun _ s => s.watcher.Fresh req.ns ∧ s.Covers) ⟨fresh_start _ _, covers_start _⟩ ?_ labels s hrun hok
  rintro _ s l s' _ ⟨hfresh, hcov⟩ hc hstep
  obtain ⟨l', w, rfl, hw, rfl⟩ | ⟨l', sub, rfl, hsub, rfl⟩ := SecretSession.step_cases hstep
  · exact ⟨fresh_step hfresh hw, hcov.watcher_step hw hc⟩
  · exact ⟨hfresh, hcov.sub_step hfresh hsub hc⟩

/-- **A fresh subscriber misses nothing**: in a run whose steps are all `Unmissed`, the
newest version of every secret, unless the watcher is still at it, has been put into
the subscriber's channel or waits in its receiver. -/
theorem secrets_lose_nothing (req : SubscribeSecretsRequest) (served : Bool) (cache : SecretCache)
    (labels : List SecretLabel) (s : SecretSession)
    (hrun : run (SecretSession.step req served) (.start cache) labels = some s)
    (hok : Along (SecretSession.step req served) (fun _ => SecretSession.Unmissed req) (.start cache) labels)
    (hphase : s.sub.phase = .bridging) (hstage : s.sub.out.stage = .running) (name : String)
    (v : SecretSnapshot) (hv : s.watcher.newest name = some v)
    (hdone : ∀ e ∈ s.watcher.pending, ¬ e.Shows v) :
    ∃ e ∈ s.sub.out.items ++ s.watcher.sent.drop s.sub.next, e.Shows v := by
  have hcov := (covers_of_run hrun hok).2 hstage
  rw [hphase] at hcov
  obtain ⟨now, since, hle, hitems, hnext, hcov⟩ := hcov
  rcases hcov name v hv with ⟨c, hc, hsame⟩ | ⟨e, he, hs⟩ | ⟨e, he, _, hs⟩
  · refine ⟨secretEvent .snapshot now c, List.mem_append_left _ ?_, shows_of_same hsame⟩
    rw [hitems]
    exact List.mem_append_left _ (List.mem_map_of_mem hc)
  · refine ⟨e, ?_, hs⟩
    -- what was sent since the subscription is what was received and what is still to come
    have hsplit : s.watcher.sent.drop since =
        (s.watcher.sent.take s.sub.next).drop since ++ s.watcher.sent.drop s.sub.next := by
      rw [← List.drop_append_of_le_length (by rw [List.length_take]; omega), List.take_append_drop]
    rw [hsplit] at he
    rw [hitems, List.append_assoc]
    exact List.mem_append_right _ he
  · exact absurd hs (hdone e he)

/-- The secret `trading/keys` at a resource version. -/
def keysAt (rv : String) : Secret :=
  { metadata := { name := some "keys", resourceVersion := some rv }, data := none }

def keysRequest : SubscribeSecretsRequest := { ns := "trading", names := [], resumeResourceVersion := "" }

/-- A version is cached and read, the next comes after the subscription. -/
def keysFollowed : List SecretLabel :=
  [.watcher (.event (.apply (keysAt "1")) 0), .watcher .send, .sub (.read [⟨"trading", "keys"⟩] 1),
    .sub .emit, .sub .join, .watcher (.event (.apply (keysAt "2")) 2), .watcher .send, .sub .recv]

def SecretSubscriber.live (sub : SecretSubscriber) : Bool :=
  match sub.phase with
  | .bridging => sub.out.stage = .running
  | _ => false

theorem SecretSubscriber.of_live {sub : SecretSubscriber} (h : sub.live = true) :
    sub.phase = .bridging ∧ sub.out.stage = .running := by
  unfold SecretSubscriber.live at h
  split at h
  · exact ⟨‹_›, of_decide_eq_true h⟩
  · cases h

theorem secrets_followed : ∃ s v,
    run (SecretSession.step keysRequest true) (.start ∅) keysFollowed = some s ∧
      s.watcher.newest "keys" = some v ∧ v.resourceVersion = "2" ∧
      ∃ e ∈ s.sub.out.items ++ s.watcher.sent.drop s.sub.next, e.Shows v := by
  obtain ⟨s, hs, hread⟩ := (Option.any_eq_true _ _).mp
    (show (run (SecretSession.step keysRequest true) (.start ∅) keysFollowed).any (fun s =>
      s.sub.live && (s.watcher.newest "keys").any (fun v => v.resourceVersion = "2") &&
        s.watcher.pending.isNone) = true by decide +kernel)
  simp only [Bool.and_eq_true] at hread
  obtain ⟨⟨hlive, hnewest⟩, hnone⟩ := hread
  obtain ⟨hphase, hstage⟩ := SecretSubscriber.of_live hlive
  obtain ⟨v, hv, hrv⟩ := (Option.any_eq_true _ _).mp hnewest
  have hdone : ∀ e ∈ s.watcher.pending, ¬ e.Shows v := by
    rw [Option.isNone_iff_eq_none.mp hnone]
    exact fun _ h => by cases h
  exact ⟨s, v, hs, hv, of_decide_eq_true hrv,
    secrets_lose_nothing keysRequest true ∅ keysFollowed s hs (by decide +kernel) hphase hstage "keys" v hv
      hdone⟩

/-- The cache is read, then a version is cached and broadcast, then the subscriber
subscribes. -/
def keysMissed : List SecretLabel :=
  [.sub (.read [] 0), .watcher (.event (.apply (keysAt "1")) 1), .watcher .send, .sub .join]

theorem secret_update_lost :
    ¬ ∀ (req : SubscribeSecretsRequest) (served : Bool) (cache : SecretCache) (labels : List SecretLabel)
      (s : SecretSession), run (SecretSession.step req served) (.start cache) labels = some s →
      s.sub.phase = .bridging → s.sub.out.stage = .running →
      ∀ (name : String) (v : SecretSnapshot), s.watcher.newest name = some v →
        (∀ e ∈ s.watcher.pending, ¬ e.Shows v) →
        ∃ e ∈ s.sub.out.items ++ s.watcher.sent.drop s.sub.next, e.Shows v := by
  intro hall
  obtain ⟨s, hs, hread⟩ := (Option.any_eq_true _ _).mp
    (show (run (SecretSession.step keysRequest true) (.start ∅) keysMissed).any (fun s =>
      s.sub.live && (s.watcher.newest "keys").isSome && s.watcher.pending.isNone &&
        (s.sub.out.items ++ s.watcher.sent.drop s.sub.next).isEmpty) = true by decide +kernel)
  simp only [Bool.and_eq_true] at hread
  obtain ⟨⟨⟨hlive, hnewest⟩, hnone⟩, hempty⟩ := hread
  obtain ⟨hphase, hstage⟩ := SecretSubscriber.of_live hlive
  obtain ⟨v, hv⟩ := Option.isSome_iff_exists.mp hnewest
  have hdone : ∀ e ∈ s.watcher.pending, ¬ e.Shows v := by
    rw [Option.isNone_iff_eq_none.mp hnone]
    exact fun _ h => by cases h
  obtain ⟨e, he, _⟩ := hall _ _ _ _ s hs hphase hstage "keys" v hv hdone
  rw [List.isEmpty_iff.mp hempty] at he
  cases he

/-- The other window: a relist has broadcast a version that is not in the cache yet. -/
example : (run (SecretSession.step keysRequest true) (.start ∅)
    [.watcher (.disconnect 0), .watcher (.event .init 1), .watcher (.event (.initApply (keysAt "1")) 1),
      .watcher .send, .sub (.read [] 2), .sub .join, .watcher (.event .initDone 3)]).any (fun s =>
    s.sub.live && (s.watcher.newest "keys").isSome && s.watcher.pending.isNone &&
      (s.sub.out.items ++ s.watcher.sent.drop s.sub.next).isEmpty) = true := by decide +kernel

/-! ### Only what was asked for -/

/-- The request asks for a secret of this name. -/
def SubscribeSecretsRequest.Lists (req : SubscribeSecretsRequest) (name : String) : Prop :=
  req.names = [] ∨ name ∈ req.names

instance (req : SubscribeSecretsRequest) (name : String) : Decidable (req.Lists name) :=
  inferInstanceAs (Decidable (_ ∨ _))

/-- The event is about a secret the request asks for. -/
def SecretEvent.Within (e : SecretEvent) (req : SubscribeSecretsRequest) : Prop :=
  ∀ r ∈ e.secret, req.Lists r.name

instance (e : SecretEvent) (req : SubscribeSecretsRequest) : Decidable (e.Within req) :=
  inferInstanceAs (Decidable (∀ r ∈ e.secret, _))

/-- The stream comes by no other secret: not in the cache when it is read, not in the
broadcast, not in the raw watch. -/
def SecretSession.Undisturbed (req : SubscribeSecretsRequest) (s : SecretSession) : SecretLabel → Prop
  | .sub (.read _ _) => ∀ k ∈ s.watcher.cache.keys, k.ns = req.ns →
      ∀ snap ∈ s.watcher.cache.lookup k, req.Lists snap.name
  | .sub .recv => ∀ e ∈ s.watcher.sent[s.sub.next]?, e.Within req
  | .sub (.raw event _) => ∀ secret ∈ event.secret, isManaged secret = true →
      req.Lists (secret.metadata.name.getD "")
  | _ => True

instance (req : SubscribeSecretsRequest) (s : SecretSession) :
    ∀ l, Decidable (SecretSession.Undisturbed req s l)
  | .sub (.read _ _) => inferInstanceAs (Decidable (∀ k ∈ s.watcher.cache.keys, _))
  | .sub .recv => inferInstanceAs (Decidable (∀ e ∈ s.watcher.sent[s.sub.next]?, _))
  | .sub (.raw event _) => inferInstanceAs (Decidable (∀ secret ∈ event.secret, _))
  | .watcher _ | .sub .emit | .sub .join | .sub .senderGone | .sub .started | .sub (.startFailed _)
  | .sub .rawFailed | .sub .rawEnded | .sub .report | .sub .drain | .sub .take | .sub .hangUp => isTrue trivial

theorem within_of_raw {req : SubscribeSecretsRequest} {now : Instant} {type : EventType} {secret : Secret}
    {e : SecretEvent} (h : rawSecretEvent req.ns now type secret = some e)
    (hok : isManaged secret = true → req.Lists (secret.metadata.name.getD "")) : e.Within req := by
  rw [rawSecretEvent, Option.map_eq_some_iff] at h
  obtain ⟨snap, hparse, rfl⟩ := h
  unfold parseSecretObject at hparse
  split at hparse
  · rename_i hman
    rw [parseSecret, Option.some.injEq] at hparse
    rintro r hr
    rw [secretEvent, Option.mem_def, Option.some.injEq] at hr
    rw [← hr, ← hparse]
    exact hok hman
  · cases hparse

theorem confined_step {req : SubscribeSecretsRequest} {served : Bool} {s : SecretSession}
    {sub : SecretSubscriber} {l : SecretSubscriberLabel} (hs : s.sub.Carries (·.Within req))
    (h : s.sub.step req served s.watcher l = some sub) (hok : SecretSession.Undisturbed req s (.sub l)) :
    sub.Carries (·.Within req) := by
  refine hs.step (SecretSubscriber.move_of_step h) ?_ ?_ ?_
  · rintro order now rfl horder snap hsnap r hr
    obtain ⟨k, hk, hlook⟩ := List.mem_filterMap.mp hsnap
    rw [List.mem_filter, decide_eq_true_eq] at hk
    rw [secretEvent, Option.mem_def, Option.some.injEq] at hr
    rw [← hr]
    exact hok k (horder.mem_iff.mp hk.1) hk.2 snap hlook
  · rintro rfl e he
    exact hok e he
  · rintro event now rfl secret hsecret type e he
    exact within_of_raw he (hok secret hsecret)

/-- **A stream that comes by no other secret delivers only what was asked for.** -/
theorem secrets_confined (req : SubscribeSecretsRequest) (served : Bool) (cache : SecretCache)
    (labels : List SecretLabel) (s : SecretSession)
    (hrun : run (SecretSession.step req served) (.start cache) labels = some s)
    (hok : Along (SecretSession.step req served) (fun _ => SecretSession.Undisturbed req) (.start cache)
      labels) : ∀ e ∈ s.sub.out.items, e.Within req := by
  refine (run_induction_along (fun _ => SecretSession.Undisturbed req) (fun _ s => s.sub.Carries (·.Within req))
    ⟨fun e he => (by cases he), trivial⟩ ?_ labels s hrun hok).1
  rintro _ s l s' _ hconf hc hstep
  obtain ⟨l', w, rfl, hw, rfl⟩ | ⟨l', sub, rfl, hsub, rfl⟩ := SecretSession.step_cases hstep
  · exact hconf
  · exact confined_step hconf hsub hc

/-- The SSE watch of `trading/keys`, on a namespace that has no other secret. -/
theorem secrets_confined_followed : ∃ s,
    run (SecretSession.step (secretSubscribeRequest "trading" "keys" "") true) (.start ∅) keysFollowed =
      some s ∧
    s.sub.out.items.length = 2 ∧
      ∀ e ∈ s.sub.out.items, e.Within (secretSubscribeRequest "trading" "keys" "") := by
  obtain ⟨s, hs, hread⟩ := (Option.any_eq_true _ _).mp
    (show (run (SecretSession.step (secretSubscribeRequest "trading" "keys" "") true) (.start ∅)
      keysFollowed).any (fun s => s.sub.out.items.length = 2) = true by decide +kernel)
  exact ⟨s, hs, of_decide_eq_true hread,
    secrets_confined _ true ∅ keysFollowed s hs (by decide +kernel)⟩

/-- The SSE watch of another secret delivers `trading/keys`. -/
theorem secret_of_another_name_delivered :
    ¬ ∀ (req : SubscribeSecretsRequest) (served : Bool) (cache : SecretCache) (labels : List SecretLabel)
      (s : SecretSession), run (SecretSession.step req served) (.start cache) labels = some s →
      ∀ e, .ok e ∈ s.sub.out.received → e.Within req := by
  intro hall
  obtain ⟨s, hs, hread⟩ := (Option.any_eq_true _ _).mp
    (show (run (SecretSession.step (secretSubscribeRequest "trading" "tls" "") true) (.start ∅)
      (keysFollowed ++ [.sub .take])).any (fun s =>
        (s.sub.out.received.head?.bind Except.toOption).any fun e =>
          ¬ e.Within (secretSubscribeRequest "trading" "tls" "")) = true by decide +kernel)
  obtain ⟨e, he, hout⟩ := (Option.any_eq_true _ _).mp hread
  obtain ⟨x, hx, hxe⟩ := Option.bind_eq_some_iff.mp he
  cases x with
  | error st => cases hxe
  | ok e' =>
    cases hxe
    exact of_decide_eq_true hout (hall _ _ _ _ s hs e (List.mem_of_head? hx))

end Konfig
