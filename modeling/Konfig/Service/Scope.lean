import Konfig.Cache
import Konfig.Secrets.Delivery
import Konfig.Subscribe.Channel

/-!
# What a stream carries

A `Subscribe` or `SubscribeSecrets` stream carries objects of its own namespace only.
The events come from a watch of that namespace, which the API server answers with objects
of it, from the replay buffer that this watch fills, and from the entries of the namespace
in the cache.

* `ConfigSession.scoped_run`, `SecretSession.scoped_run`: what was put into the channel.
-/

namespace Konfig

open Lib

/-! ### Configs -/

/-- The event is about a config of the namespace. -/
def ConfigEvent.Of (ns : String) (e : ConfigEvent) : Prop := ∀ c ∈ e.config, c.ns = ns

/-- The API server delivers objects of the watched namespace, and the cache is read for
the namespace. -/
def ConfigSessionLabel.Scoped (ns : String) : ConfigSessionLabel → Prop
  | .pump (.watch event _) => ∀ p ∈ eventObject event, p.2.metadata.ns = some ns
  | .sub (.readCache snaps _) => ∃ (c : ConfigCache) (order : List Key),
      order.Perm c.entries.keys ∧ snaps = c.allInNamespace order ns
  | _ => True

theorem of_parseConfigObject {ns : String} {now : Instant} {type : EventType} {obj : DynamicObject}
    {snap : ConfigSnapshot} (hobj : obj.metadata.ns = some ns) (h : parseConfigObject now obj = some snap) :
    ConfigEvent.Of ns { eventType := type, config := some (snapshotToProto now snap) } := by
  intro c hc
  obtain rfl := Option.some.inj hc
  simp only [parseConfigObject, Option.bind_eq_bind, Option.bind_eq_some_iff, Option.pure_def,
    Option.some.injEq] at h
  obtain ⟨_, _, _, _, rfl⟩ := h
  show obj.metadata.ns.getD "" = ns
  rw [hobj]
  rfl

theorem of_frameOf {ns : String} {now : Instant} {event : WatchEvent DynamicObject} {f : BroadcastFrame}
    (hevent : ∀ p ∈ eventObject event, p.2.metadata.ns = some ns) (h : frameOf now event = some f) :
    f.event.Of ns := by
  obtain ⟨p, hp, h⟩ := Option.bind_eq_some_iff.mp h
  obtain ⟨snap, hsnap, rfl⟩ := Option.map_eq_some_iff.mp h
  exact of_parseConfigObject (hevent p hp) hsnap

/-- Everything the pump has sent, will send and keeps for a replay is of the namespace. -/
structure Pump.Of (ns : String) (p : Pump) : Prop where
  pushed : ∀ f ∈ p.pushed, f.event.Of ns
  buffer : ∀ e ∈ p.buffer, e.event.Of ns

theorem of_pushFrame {ns : String} {buf : List ReplayEntry} {f : BroadcastFrame}
    (hbuf : ∀ e ∈ buf, e.event.Of ns) (hf : f.event.Of ns) : ∀ e ∈ pushFrame buf f, e.event.Of ns := by
  intro e he
  unfold pushFrame at he
  cases hentry : f.entry with
  | none =>
    rw [hentry] at he
    exact hbuf e he
  | some entry =>
    rw [hentry] at he
    rcases mem_of_mem_pushBounded he with he | rfl
    · exact hbuf e he
    · obtain ⟨_, _, rfl⟩ := Option.map_eq_some_iff.mp hentry
      exact hf

theorem Pump.Of.step {ns : String} {coalesced : Bool} {p p' : Pump} {l : PumpLabel} (hp : p.Of ns)
    (hl : ConfigSessionLabel.Scoped ns (.pump l)) (h : p.step coalesced l = some p') : p'.Of ns := by
  obtain ⟨fs, hlen, hframes, hbuf, hpushed, _⟩ | ⟨f, hbuf, hpushed, _⟩ := Pump.step_cases h
  · have hfs : ∀ f ∈ fs, f.event.Of ns := by
      intro f hf
      obtain ⟨now, event, rfl, hframe⟩ := hframes f hf
      exact of_frameOf hl hframe
    refine ⟨?_, ?_⟩
    · rw [hpushed]
      intro f hf
      rcases List.mem_append.mp hf with hf | hf
      · exact hp.pushed f hf
      · exact hfs f hf
    · rw [hbuf]
      match fs, hlen with
      | [], _ => exact hp.buffer
      | [f], _ => exact of_pushFrame hp.buffer (hfs f List.mem_cons_self)
  · refine ⟨?_, ?_⟩
    · rw [hpushed]
      exact hp.pushed
    · rw [hbuf]
      exact hp.buffer

/-- What is in the channel and what is still to be put there is of the namespace. -/
def ConfigSubscriber.Of (ns : String) (sub : ConfigSubscriber) : Prop :=
  (∀ e ∈ sub.out.items, e.Of ns) ∧
    match sub.phase with
    | .snapshotting todo _ => ∀ e ∈ todo, e.Of ns
    | .replaying todo => ∀ it ∈ todo, it.1.Of ns
    | _ => True

theorem of_lookupReplay {ns : String} {front : Nat} {buf : List ReplayEntry} {rv : Option Nat}
    {slice : List ReplayItem} (hbuf : ∀ e ∈ buf, e.event.Of ns)
    (h : lookupReplay front buf rv = some slice) : ∀ it ∈ slice, it.1.Of ns := by
  unfold lookupReplay at h
  split at h
  · cases h
    intro it hit
    obtain ⟨e, he, rfl⟩ := List.mem_map.mp hit
    exact hbuf e (List.mem_of_mem_drop he)
  · cases h

theorem of_postSnapshotEvents {ns : String} {buf : List ReplayEntry} (hbuf : ∀ e ∈ buf, e.event.Of ns)
    (maxRv : Nat) : ∀ it ∈ postSnapshotEvents buf maxRv, it.1.Of ns := by
  intro it hit
  obtain ⟨e, he, rfl⟩ := List.mem_map.mp hit
  exact hbuf e (List.mem_of_mem_filter he)

theorem of_snapshotEvents {ns : String} (filter : SubscribeFilter) (now : Instant) {c : ConfigCache}
    {order : List Key} : ∀ e ∈ snapshotEvents filter now (c.allInNamespace order ns), e.Of ns := by
  intro e he
  obtain ⟨snap, hsnap, rfl⟩ := List.mem_map.mp he
  intro cfg hcfg
  obtain rfl := Option.some.inj hcfg
  exact ConfigCache.ns_of_mem_allInNamespace (List.mem_of_mem_filter hsnap)

theorem ConfigSubscriber.Of.step {ns : String} {filter : SubscribeFilter} {p : Pump}
    {sub sub' : ConfigSubscriber} {l : ConfigSubscriberLabel} (hsub : sub.Of ns) (hp : p.Of ns)
    (hl : ConfigSessionLabel.Scoped ns (.sub l)) (hm : sub.Move filter p l sub') : sub'.Of ns := by
  obtain ⟨hitems, htodo⟩ := hsub
  cases hm with
  | attach hphase hrun => exact ⟨hitems, trivial⟩
  | hit hphase hrun hlook => exact ⟨hitems, of_lookupReplay hp.buffer hlook⟩
  | miss hphase hrun hlook => exact ⟨hitems, trivial⟩
  | readCache hphase hrun hnodup =>
    obtain ⟨c, order, _, rfl⟩ := hl
    exact ⟨hitems, of_snapshotEvents filter _⟩
  | readBuffer hphase hrun => exact ⟨hitems, of_postSnapshotEvents hp.buffer _⟩
  | snapshot hphase hout | replay hphase _ hout =>
    rw [hphase] at htodo
    refine ⟨Emitter.items_forall hout hitems fun e he => ?_, fun e he => htodo e (List.mem_cons_of_mem _ he)⟩
    cases he
    exact htodo _ List.mem_cons_self
  | skip hphase hrun hdeny =>
    rw [hphase] at htodo
    exact ⟨hitems, fun e he => htodo e (List.mem_cons_of_mem _ he)⟩
  | bridge hphase hrun => exact ⟨hitems, trivial⟩
  | recv hphase hframe hallow hout =>
    refine ⟨Emitter.items_forall hout hitems fun e he => ?_, htodo⟩
    cases he
    refine hp.pushed _ ((Pump.sent_pushed p).subset ?_)
    exact List.mem_of_getElem? hframe
  | pass hphase hrun hframe hdeny => exact ⟨hitems, htodo⟩
  | lagged hphase hlag hout => exact ⟨Emitter.items_quiet hout rfl hitems, htodo⟩
  | overrun hphase hlag hout => exact ⟨Emitter.items_quiet hout rfl hitems, htodo⟩
  | finish hphase hl hlag hout => exact ⟨Emitter.items_quiet hout rfl hitems, htodo⟩
  | report hout => exact ⟨Emitter.items_quiet hout rfl hitems, htodo⟩
  | take hout => exact ⟨Emitter.items_quiet hout rfl hitems, htodo⟩
  | hangUp hout => exact ⟨Emitter.items_quiet hout rfl hitems, htodo⟩

/-- The whole session. -/
def ConfigSession.Of (ns : String) (s : ConfigSession) : Prop := s.pump.Of ns ∧ s.sub.Of ns

/-- **A `Subscribe` stream carries configs of its namespace.**  The pump may have run
before: what it has kept is of the namespace. -/
theorem ConfigSession.scoped_run {ns : String} {coalesced : Bool} {filter : SubscribeFilter} {p : Pump}
    {resumeRv : String} {ls : List ConfigSessionLabel} {s : ConfigSession} (hp : p.Of ns)
    (hls : ∀ l ∈ ls, l.Scoped ns)
    (h : run (ConfigSession.step coalesced filter) ⟨p, .new resumeRv⟩ ls = some s) :
    ∀ e ∈ s.sub.out.items, e.Of ns := by
  have h0 : ConfigSession.Of ns ⟨p, .new resumeRv⟩ := ⟨hp, fun e he => (by cases he), trivial⟩
  refine (run_induction (fun (as : List ConfigSessionLabel) (s : ConfigSession) =>
    (∀ l ∈ as, l.Scoped ns) → s.Of ns) (fun _ => h0) ?_ ls s h hls).2.1
  intro as s l s' _ ih hstep hls
  obtain ⟨hpump, hsub⟩ := ih fun l hl => hls l (List.mem_append_left _ hl)
  have hl := hls l (by simp)
  obtain ⟨l', q, rfl, hq, rfl⟩ | ⟨l', sub, rfl, hs, rfl⟩ := ConfigSession.step_cases hstep
  · exact ⟨hpump.step hl hq, hsub⟩
  · exact ⟨hpump, hsub.step hpump hl (ConfigSubscriber.move_of_step hs)⟩

/-! ### Secrets -/

/-- The event is about a secret of the namespace. -/
def SecretEvent.Of (ns : String) (e : SecretEvent) : Prop := ∀ r ∈ e.secret, r.ns = ns

/-- The API server answers a raw watch with secrets of the watched namespace. -/
def SecretLabel.Scoped (ns : String) : SecretLabel → Prop
  | .sub (.raw event _) => ∀ secret ∈ event.secret, secret.metadata.ns = some ns
  | _ => True

theorem of_secretEvent {ns : String} {snap : SecretSnapshot} (h : snap.ns = ns) (type : EventType)
    (now : Instant) : (secretEvent type now snap).Of ns := by
  intro r hr
  obtain rfl := Option.some.inj hr
  exact h

theorem SecretCache.keyed_applyBatch : ∀ {buf : List SecretSnapshot} {c : SecretCache},
    c.Keyed SecretSnapshot.key → (c.applyBatch buf).Keyed SecretSnapshot.key := by
  intro buf
  induction buf with
  | nil => intro c hc; exact hc
  | cons snap buf ih => intro c hc; exact ih (hc.insert snap)

/-- The cache stores every secret under its own key, and what is broadcast is of the
namespace. -/
structure SecretWatcher.Of (ns : String) (w : SecretWatcher) : Prop where
  keyed : w.cache.Keyed SecretSnapshot.key
  pending : ∀ e ∈ w.pending, e.Of ns
  sent : ∀ e ∈ w.sent, e.Of ns

theorem SecretWatcher.Of.step {ns : String} {w w' : SecretWatcher} {l : SecretWatcherLabel}
    (hw : w.Of ns) (h : w.step ns l = some w') : w'.Of ns := by
  have hstale : ∀ now, (w.cache.markAllStale now).Keyed SecretSnapshot.key := fun now =>
    hw.keyed.mapVals fun _ => rfl
  cases SecretWatcher.move_of_step h with
  | applied hns hp =>
    refine ⟨hw.keyed.insert _, fun e he => ?_, hw.sent⟩
    obtain rfl := Option.some.inj he
    exact of_secretEvent hns _ _
  | buffered hns _ _ | deleted hns _ =>
    refine ⟨hw.keyed, fun e he => ?_, hw.sent⟩
    obtain rfl := Option.some.inj he
    exact of_secretEvent hns _ _
  | committed hr hp => exact ⟨SecretCache.keyed_applyBatch hw.keyed, hw.pending, hw.sent⟩
  | opened hb hp => exact ⟨hw.keyed, hw.pending, hw.sent⟩
  | idle hp => exact hw
  | sent hp =>
    refine ⟨hw.keyed, nofun, fun e he => ?_⟩
    rcases List.mem_append.mp he with he | he
    · exact hw.sent e he
    · rw [List.mem_singleton] at he
      subst he
      exact hw.pending _ hp
  | disconnected hp => exact ⟨hstale _, hw.pending, hw.sent⟩
  | foreign hns => exact ⟨hw.keyed.insert _, hw.pending, hw.sent⟩
  | foreignStale => exact ⟨hstale _, hw.pending, hw.sent⟩

theorem SecretCache.ns_of_mem_allInNamespace {c : SecretCache} (hc : c.Keyed SecretSnapshot.key)
    {order : List Key} {ns : String} {snap : SecretSnapshot} (h : snap ∈ c.allInNamespace order ns) :
    snap.ns = ns := by
  have hkey := hc.of_mem_visit h
  rw [List.mem_filter, decide_eq_true_eq] at hkey
  exact hkey.2

theorem of_rawSecretEvent {ns : String} {now : Instant} {type : EventType} {secret : Secret}
    {e : SecretEvent} (hsecret : secret.metadata.ns = some ns)
    (h : rawSecretEvent ns now type secret = some e) : e.Of ns := by
  obtain ⟨snap, hparse, rfl⟩ := Option.map_eq_some_iff.mp h
  refine of_secretEvent ?_ _ _
  rw [parseSecret_ns (parseSecret_of_object hparse), hsecret]
  rfl

theorem scoped_step {req : SubscribeSecretsRequest} {w : SecretWatcher} {sub sub' : SecretSubscriber}
    {l : SecretSubscriberLabel} (hsub : sub.Carries (SecretEvent.Of req.ns)) (hw : w.Of req.ns)
    (hl : SecretLabel.Scoped req.ns (.sub l)) (hm : sub.Move req w l sub') :
    sub'.Carries (SecretEvent.Of req.ns) := by
  refine hsub.step hm ?_ ?_ ?_
  · rintro order now rfl _ snap hsnap
    exact of_secretEvent (SecretCache.ns_of_mem_allInNamespace hw.keyed hsnap) _ _
  · rintro rfl e he
    exact hw.sent e (List.mem_of_getElem? he)
  · rintro event now rfl secret hsecret type e he
    exact of_rawSecretEvent (hl secret hsecret) he

/-- The whole session. -/
def SecretSession.Of (ns : String) (s : SecretSession) : Prop :=
  s.watcher.Of ns ∧ s.sub.Carries (SecretEvent.Of ns)

/-- **A `SubscribeSecrets` stream carries secrets of its namespace.** -/
theorem SecretSession.scoped_run {req : SubscribeSecretsRequest} {served : Bool} {cache : SecretCache}
    {ls : List SecretLabel} {s : SecretSession} (hcache : cache.Keyed SecretSnapshot.key)
    (hls : ∀ l ∈ ls, l.Scoped req.ns)
    (h : run (SecretSession.step req served) (.start cache) ls = some s) :
    ∀ e ∈ s.sub.out.items, e.Of req.ns := by
  have h0 : (SecretSession.start cache).Of req.ns :=
    ⟨⟨hcache, nofun, nofun⟩, fun e he => (by cases he), trivial⟩
  refine (run_induction (fun (as : List SecretLabel) (s : SecretSession) =>
    (∀ l ∈ as, l.Scoped req.ns) → s.Of req.ns) (fun _ => h0) ?_ ls s h hls).2.1
  intro as s l s' _ ih hstep hls
  obtain ⟨hwatcher, hsub⟩ := ih fun l hl => hls l (List.mem_append_left _ hl)
  have hl := hls l (by simp)
  obtain ⟨l', w, rfl, hw, rfl⟩ | ⟨l', sub, rfl, hs, rfl⟩ := SecretSession.step_cases hstep
  · exact ⟨hwatcher.step hw, hsub⟩
  · exact ⟨hwatcher, scoped_step hsub hwatcher hl (SecretSubscriber.move_of_step hs)⟩

end Konfig
