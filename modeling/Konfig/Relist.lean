import Konfig.Secrets.Watch
import Konfig.Watcher

/-!
# Batched relists

`route_relist_event` is one state machine for both watchers: after a reconnect it buffers
what a relist lists and commits it with `InitDone`; on a first connection each listed
object is applied as it comes.  Both watchers are compared here on whole streams, each run
with its own readings of the clock.

* `Framed`: each `Init` is followed by `InitApply` events and an `InitDone`, and live
  events stand outside.
* `StreamAction.foldl_framed`: a loop comes to what its stream does if it does so for each
  live event and for each relist.
* `pumpConfigEvents`, `pumpSecretEvents`: the loops over a stream.
* `relist_batching`: the two modes come to the same, and a batched relist leaves the cache
  alone until its `InitDone`.
-/

namespace Konfig

open Lib

/-! ### Streams -/

section Streams

variable {E : Type}

/-- Events with the readings of the clock at which they are handled. -/
abbrev TimedEvents (E : Type) := List (WatchEvent E × Instant)

/-- The events of a relist that list something. -/
def listing (objs : List (E × Instant)) : TimedEvents E := objs.map fun o => (.initApply o.1, o.2)

/-- Every `Init` opens a relist that is complete. -/
inductive Framed : TimedEvents E → Prop
  | nil : Framed []
  | apply (obj : E) (now : Instant) {rest : TimedEvents E} : Framed rest → Framed ((.apply obj, now) :: rest)
  | delete (obj : E) (now : Instant) {rest : TimedEvents E} : Framed rest → Framed ((.delete obj, now) :: rest)
  | relist (started done : Instant) (objs : List (E × Instant)) {rest : TimedEvents E} : Framed rest →
      Framed ((.init, started) :: (listing objs ++ (.initDone, done) :: rest))

/-- What a loop over a stream, batched or not, has to keep: `Same` compares the states at
the end, and `cache` is what may not change within a relist. -/
structure BatchingPreserves {σ C : Type} (pump : Bool → TimedEvents E → σ) (Same : σ → σ → Prop)
    (cache : σ → C) : Prop where
  /-- Batched or not, the stream leads to the same. -/
  same : ∀ stream stream', Framed stream → stream.map Prod.fst = stream'.map Prod.fst →
    Same (pump true stream) (pump false stream')
  /-- Within a relist, and after one that is cut off, the cache is as it was at its `Init`. -/
  atomic : ∀ before started objs, Framed before →
    cache (pump true (before ++ (.init, started) :: listing objs)) = cache (pump true before)

/-- What each event yields whatever the clock, a stream of the same events yields. -/
theorem flatMap_of_events {α : Type} {f : WatchEvent E × Instant → List α}
    (hf : ∀ event now now', f (event, now) = f (event, now')) : ∀ {stream stream' : TimedEvents E},
    stream.map Prod.fst = stream'.map Prod.fst → stream.flatMap f = stream'.flatMap f := by
  intro stream
  induction stream with
  | nil =>
    intro stream' h
    rw [List.map_nil, eq_comm, List.map_eq_nil_iff] at h
    rw [h]
  | cons e stream ih =>
    intro stream' h
    cases stream' with
    | nil => cases h
    | cons e' stream' =>
      rw [List.map_cons, List.map_cons, List.cons.injEq] at h
      rw [List.flatMap_cons, List.flatMap_cons, ih h.2, hf e.1 e.2 e'.2, h.1]

/-- `act stream` is what a stream comes to for a state that has no relist in progress. -/
structure StreamAction {S : Type} (act : TimedEvents E → S → S) (Idle : S → Prop) : Prop where
  nil : ∀ s, act [] s = s
  append : ∀ x y s, act (x ++ y) s = act y (act x s)
  idle : ∀ x s, Idle s → Idle (act x s)

section Loops

variable {S : Type} {act : TimedEvents E → S → S} {Idle : S → Prop} {turn : S → WatchEvent E × Instant → S}

/-- One by one: a loop comes to what its stream does if every turn comes to what its event
does. -/
theorem StreamAction.foldl_turns (ha : StreamAction act Idle)
    (hturn : ∀ s e, Idle s → turn s e = act [e] s) :
    ∀ (stream : TimedEvents E) (s : S), Idle s → stream.foldl turn s = act stream s := by
  intro stream
  induction stream with
  | nil => exact fun s _ => (ha.nil s).symm
  | cons e stream ih =>
    intro s hs
    rw [List.foldl_cons, hturn s e hs, ih _ (ha.idle [e] s hs), ← ha.append, List.singleton_append]

/-- Over complete relists it is enough that a whole relist comes to what its events do. -/
theorem StreamAction.foldl_framed (ha : StreamAction act Idle)
    (hlive : ∀ s e, Idle s → e.1 ≠ .init → turn s e = act [e] s)
    (hrelist : ∀ s started objs done, Idle s →
      ((.init, started) :: (listing objs ++ [(.initDone, done)])).foldl turn s =
        act ((.init, started) :: (listing objs ++ [(.initDone, done)])) s)
    {stream : TimedEvents E} (h : Framed stream) : ∀ s, Idle s → stream.foldl turn s = act stream s := by
  induction h with
  | nil => exact fun s _ => (ha.nil s).symm
  | @apply obj now rest _ ih | @delete obj now rest _ ih =>
    intro s hs
    rw [List.foldl_cons, hlive s _ hs (by rintro ⟨⟩), ih _ (ha.idle _ s hs), ← ha.append,
      List.singleton_append]
  | @relist started done objs rest _ ih =>
    intro s hs
    have hsplit : (WatchEvent.init, started) :: (listing objs ++ (.initDone, done) :: rest) =
        ((.init, started) :: (listing objs ++ [(.initDone, done)])) ++ rest := by simp
    rw [hsplit, List.foldl_append, hrelist s started objs done hs, ih _ (ha.idle _ s hs), ha.append]

end Loops

end Streams

/-! ### Maps up to a part of their values -/

section Agree

variable {K V W : Type} [DecidableEq K]

/-- The same keys, with values that `view` does not tell apart. -/
def AgreeOn (view : V → W) (m m' : Map K V) : Prop := ∀ k, (m.lookup k).map view = (m'.lookup k).map view

theorem AgreeOn.refl (view : V → W) (m : Map K V) : AgreeOn view m m := fun _ => rfl

theorem AgreeOn.insert {view : V → W} {key : V → K} (hkey : ∀ v v', view v = view v' → key v = key v')
    {m m' : Map K V} (h : AgreeOn view m m') {v v' : V} (hv : view v = view v') :
    AgreeOn view (AList.insert (key v) v m) (AList.insert (key v') v' m') := by
  intro k
  rw [← hkey v v' hv]
  by_cases hk : k = key v
  · rw [hk, AList.lookup_insert, AList.lookup_insert, Option.map_some, Option.map_some, hv]
  · rw [AList.lookup_insert_ne hk, AList.lookup_insert_ne hk]
    exact h k

/-- Inserting values that look alike one after the other. -/
theorem AgreeOn.foldl_insert {view : V → W} {key : V → K}
    (hkey : ∀ v v', view v = view v' → key v = key v') : ∀ {vs vs' : List V} {m m' : Map K V},
    AgreeOn view m m' → vs.map view = vs'.map view →
      AgreeOn view (vs.foldl (fun m v => AList.insert (key v) v m) m)
        (vs'.foldl (fun m v => AList.insert (key v) v m) m') := by
  intro vs
  induction vs with
  | nil =>
    intro vs' m m' h hvs
    rw [List.map_nil, eq_comm, List.map_eq_nil_iff] at hvs
    rw [hvs]
    exact h
  | cons v vs ih =>
    intro vs' m m' h hvs
    cases vs' with
    | nil => cases hvs
    | cons v' vs' =>
      rw [List.map_cons, List.map_cons, List.cons.injEq] at hvs
      rw [List.foldl_cons, List.foldl_cons]
      exact ih (h.insert hkey hvs.1) hvs.2

end Agree

/-! ### Configs -/

/-- `pump_config_events`. -/
def pumpConfigEvents (batchRelist : Bool) (stream : TimedEvents DynamicObject)
    (s : Option (List ConfigSnapshot) × ConfigCache) : Option (List ConfigSnapshot) × ConfigCache :=
  stream.foldl (fun s e => routeConfigEvent e.2 e.1 s.1 batchRelist s.2) s

/-- The snapshots that a stream has written once it is over. -/
def configWrites (stream : TimedEvents DynamicObject) : List ConfigSnapshot :=
  stream.flatMap fun e => relistWrites (parseConfigObject e.2) none e.1

theorem pumpConfigEvents_cons (b : Bool) (e : WatchEvent DynamicObject × Instant)
    (stream : TimedEvents DynamicObject) (s : Option (List ConfigSnapshot) × ConfigCache) :
    pumpConfigEvents b (e :: stream) s =
      pumpConfigEvents b stream (routeConfigEvent e.2 e.1 s.1 b s.2) := rfl

theorem pumpConfigEvents_append (b : Bool) (stream stream' : TimedEvents DynamicObject)
    (s : Option (List ConfigSnapshot) × ConfigCache) :
    pumpConfigEvents b (stream ++ stream') s = pumpConfigEvents b stream' (pumpConfigEvents b stream s) :=
  List.foldl_append

/-- Without a relist in progress. -/
theorem routeConfigEvent_live (b : Bool) (e : WatchEvent DynamicObject × Instant) (cache : ConfigCache)
    (h : b = false ∨ e.1 ≠ .init) :
    routeConfigEvent e.2 e.1 none b cache =
      (none, (relistWrites (parseConfigObject e.2) none e.1).foldl ConfigCache.update cache) := by
  refine Prod.ext ?_ (routeConfigEvent_cache e.2 e.1 none b cache)
  obtain ⟨event, now⟩ := e
  unfold routeConfigEvent routeRelistEvent
  cases b with
  | false => rfl
  | true =>
    cases event with
    | init => exact absurd rfl (h.resolve_left (by decide))
    | _ => rfl

/-- What a stream has written once it is over. -/
theorem configWrites_action : StreamAction
    (fun stream s => (s.1, (configWrites stream).foldl ConfigCache.update s.2))
    (fun s : Option (List ConfigSnapshot) × ConfigCache => s.1 = none) where
  nil _ := rfl
  append x y s := by
    dsimp only
    rw [configWrites, configWrites, configWrites, List.flatMap_append, List.foldl_append]
  idle _ _ h := h

theorem configWrites_singleton (e : WatchEvent DynamicObject × Instant) :
    configWrites [e] = relistWrites (parseConfigObject e.2) none e.1 := by
  rw [configWrites, List.flatMap_singleton]

/-- One by one, whatever the stream. -/
theorem pumpConfigEvents_false (stream : TimedEvents DynamicObject) (cache : ConfigCache) :
    pumpConfigEvents false stream (none, cache) =
      (none, (configWrites stream).foldl ConfigCache.update cache) := by
  refine configWrites_action.foldl_turns ?_ stream (none, cache) rfl
  rintro ⟨_, cache⟩ e rfl
  rw [configWrites_singleton]
  exact routeConfigEvent_live false e cache (Or.inl rfl)

/-- **Within a relist the cache stays.** -/
theorem pumpConfigEvents_listing : ∀ (objs : List (DynamicObject × Instant)) (buf : List ConfigSnapshot)
    (cache : ConfigCache), pumpConfigEvents true (listing objs) (some buf, cache) =
      (some (buf ++ configWrites (listing objs)), cache) := by
  intro objs
  induction objs with
  | nil =>
    intro buf cache
    rw [listing, configWrites, List.map_nil, List.flatMap_nil, List.append_nil]
    rfl
  | cons o objs ih =>
    intro buf cache
    have hroute : routeConfigEvent o.2 (.initApply o.1) (some buf) true cache =
        (some (buf ++ (parseConfigObject o.2 o.1).toList), cache) := by
      unfold routeConfigEvent routeRelistEvent
      dsimp only
      cases parseConfigObject o.2 o.1 with
      | none => rw [Option.toList_none, List.append_nil]
      | some snap => rfl
    rw [listing, List.map_cons, pumpConfigEvents_cons, hroute]
    rw [← listing, ih, List.append_assoc]
    rfl

/-- Batched, over complete relists. -/
theorem pumpConfigEvents_true {stream : TimedEvents DynamicObject} (h : Framed stream)
    (cache : ConfigCache) : pumpConfigEvents true stream (none, cache) =
      (none, (configWrites stream).foldl ConfigCache.update cache) := by
  refine configWrites_action.foldl_framed ?_ ?_ h (none, cache) rfl
  · rintro ⟨_, cache⟩ e rfl hne
    rw [configWrites_singleton]
    exact routeConfigEvent_live true e cache (Or.inr hne)
  · rintro ⟨_, cache⟩ started objs done rfl
    have hcommit : routeConfigEvent done .initDone (some (configWrites (listing objs))) true cache =
        (none, (configWrites (listing objs)).foldl ConfigCache.update cache) :=
      congrArg (Prod.mk none) (applyBatch_upserts cache _)
    have hwrites : configWrites ((.init, started) :: (listing objs ++ [(.initDone, done)])) =
        configWrites (listing objs) := by
      rw [configWrites, List.flatMap_cons, List.flatMap_append, List.flatMap_singleton]
      exact List.append_nil _
    rw [hwrites]
    change pumpConfigEvents true _ (none, cache) = _
    rw [pumpConfigEvents_cons, pumpConfigEvents_append]
    change pumpConfigEvents true _ (pumpConfigEvents true (listing objs) (some [], cache)) = _
    rw [pumpConfigEvents_listing, pumpConfigEvents_cons, List.nil_append, hcommit]
    rfl

/-- A snapshot but for when it was loaded. -/
def ConfigSnapshot.unloaded (snap : ConfigSnapshot) : ConfigSnapshot := { snap with loadedAt := 0 }

/-- What is parsed does not depend on the clock but for that. -/
theorem parseConfigObject_unloaded (now now' : Instant) (obj : DynamicObject) :
    (parseConfigObject now obj).map ConfigSnapshot.unloaded =
      (parseConfigObject now' obj).map ConfigSnapshot.unloaded := by
  unfold parseConfigObject
  cases obj.data.get "spec" with
  | none => rfl
  | some specValue =>
    dsimp only [Option.bind_eq_bind, Option.bind_some]
    cases ConfigSpec.fromValue specValue with
    | none => rfl
    | some spec => rfl

theorem configWrites_unloaded {stream stream' : TimedEvents DynamicObject}
    (h : stream.map Prod.fst = stream'.map Prod.fst) :
    (configWrites stream).map ConfigSnapshot.unloaded = (configWrites stream').map ConfigSnapshot.unloaded := by
  rw [configWrites, configWrites, List.map_flatMap, List.map_flatMap]
  refine flatMap_of_events (fun event now now' => ?_) h
  cases event with
  | apply obj | initApply obj =>
    change (parseConfigObject now obj).toList.map _ = (parseConfigObject now' obj).toList.map _
    rw [← Option.toList_map, ← Option.toList_map, parseConfigObject_unloaded now now']
  | delete _ | init | initDone => rfl

theorem entries_updates (snaps : List ConfigSnapshot) (cache : ConfigCache) :
    (snaps.foldl ConfigCache.update cache).entries =
      snaps.foldl (fun m snap => AList.insert snap.key snap m) cache.entries := by
  induction snaps generalizing cache with
  | nil => rfl
  | cons snap snaps ih => exact ih (cache.update snap)

/-- The config caches hold the same, but for when it was loaded. -/
def ConfigCache.SameUpToLoad (c c' : ConfigCache) : Prop :=
  AgreeOn ConfigSnapshot.unloaded c.entries c'.entries

theorem config_batching (cache : ConfigCache) :
    BatchingPreserves (fun b stream => (pumpConfigEvents b stream (none, cache)).2)
      ConfigCache.SameUpToLoad id where
  same stream stream' hframed hevents := by
    rw [pumpConfigEvents_true hframed, pumpConfigEvents_false, ConfigCache.SameUpToLoad, entries_updates,
      entries_updates]
    refine AgreeOn.foldl_insert ?_ (AgreeOn.refl _ cache.entries) (configWrites_unloaded hevents)
    intro snap snap' h
    have hns := congrArg ConfigSnapshot.ns h
    have hname := congrArg ConfigSnapshot.name h
    exact congrArg₂ Key.mk hns hname
  atomic before started objs hframed := by
    rw [pumpConfigEvents_append, pumpConfigEvents_true hframed]
    change (pumpConfigEvents true (listing objs) (some [], _)).2 = _
    rw [pumpConfigEvents_listing]
    rfl

/-! ### Secrets -/

/-- The send that ends the handling of an event. -/
def SecretWatcher.flush (w : SecretWatcher) : SecretWatcher :=
  match w.pending with
  | some event => { w with pending := none, sent := w.sent ++ [event] }
  | none => w

/-- `pump_secret_events`. -/
def pumpSecretEvents (ns : String) (stream : TimedEvents Secret) (w : SecretWatcher) : SecretWatcher :=
  stream.foldl (fun w e => (routeSecretEvent ns e.2 e.1 w).flush) w

/-- Each turn of the loop is one step of the watcher, or two. -/
theorem pumpSecretEvents_run (ns : String) : ∀ (stream : TimedEvents Secret) (w : SecretWatcher),
    w.pending = none → (pumpSecretEvents ns stream w).pending = none ∧
      ∃ labels, run (SecretWatcher.step ns) w labels = some (pumpSecretEvents ns stream w) := by
  intro stream
  induction stream with
  | nil => exact fun w hw => ⟨hw, [], rfl⟩
  | cons e stream ih =>
    intro w hw
    have hevent : w.step ns (.event e.1 e.2) = some (routeSecretEvent ns e.2 e.1 w) := by
      rw [SecretWatcher.step, hw]
    have hflush : ∃ labels, run (SecretWatcher.step ns) (routeSecretEvent ns e.2 e.1 w) labels =
        some (routeSecretEvent ns e.2 e.1 w).flush := by
      unfold SecretWatcher.flush
      cases hp : (routeSecretEvent ns e.2 e.1 w).pending with
      | none => exact ⟨[], rfl⟩
      | some event =>
        refine ⟨[.send], ?_⟩
        rw [run_singleton, SecretWatcher.step, hp]
    have hpending : (routeSecretEvent ns e.2 e.1 w).flush.pending = none := by
      unfold SecretWatcher.flush
      split
      · rfl
      · assumption
    obtain ⟨labels, hlabels⟩ := hflush
    obtain ⟨hend, rest, hrest⟩ := ih _ hpending
    refine ⟨hend, .event e.1 e.2 :: (labels ++ rest), ?_⟩
    rw [run_cons, hevent, Option.bind_some, run_append, hlabels]
    exact hrest

theorem pumpSecretEvents_cons (ns : String) (e : WatchEvent Secret × Instant) (stream : TimedEvents Secret)
    (w : SecretWatcher) : pumpSecretEvents ns (e :: stream) w =
      pumpSecretEvents ns stream (routeSecretEvent ns e.2 e.1 w).flush := rfl

theorem pumpSecretEvents_append (ns : String) (stream stream' : TimedEvents Secret) (w : SecretWatcher) :
    pumpSecretEvents ns (stream ++ stream') w = pumpSecretEvents ns stream' (pumpSecretEvents ns stream w) :=
  List.foldl_append

/-- The snapshots that an event writes, sooner or later. -/
def secretWrites (ns : String) (e : WatchEvent Secret × Instant) : List SecretSnapshot :=
  relistWrites (fun secret => parseSecret e.2 secret ns) none e.1

/-- What an event is broadcast as. -/
def secretBroadcasts (ns : String) (e : WatchEvent Secret × Instant) : List SecretEvent :=
  match e.1 with
  | .apply secret | .initApply secret => (parseSecret e.2 secret ns).toList.map (secretEvent .modified e.2)
  | .delete secret => (parseSecret e.2 secret ns).toList.map (secretEvent .deleted e.2)
  | .init | .initDone => []

/-- A watcher after it has written and broadcast. -/
def SecretWatcher.after (w : SecretWatcher) (writes : List SecretSnapshot) (events : List SecretEvent) :
    SecretWatcher :=
  { w with cache := w.cache.applyBatch writes, sent := w.sent ++ events, applied := w.applied ++ writes }

theorem SecretWatcher.after_nil (w : SecretWatcher) : w.after [] [] = w := by
  rw [SecretWatcher.after, List.append_nil, List.append_nil]
  rfl

theorem SecretWatcher.after_after (w : SecretWatcher) (writes writes' : List SecretSnapshot)
    (events events' : List SecretEvent) :
    (w.after writes events).after writes' events' = w.after (writes ++ writes') (events ++ events') := by
  simp only [SecretWatcher.after, List.append_assoc, SecretCache.applyBatch, List.foldl_append]

/-- Between two events of a connection, without a relist in progress. -/
structure SecretWatcher.Idle (w : SecretWatcher) (batchRelist : Bool) : Prop where
  relist : w.relist = none
  pending : w.pending = none
  batch : w.batchRelist = batchRelist

theorem SecretWatcher.Idle.after {w : SecretWatcher} {b : Bool} (h : w.Idle b)
    (writes : List SecretSnapshot) (events : List SecretEvent) : (w.after writes events).Idle b :=
  ⟨h.relist, h.pending, h.batch⟩

/-- Without a relist in progress. -/
theorem routeSecretEvent_live (ns : String) (e : WatchEvent Secret × Instant) {w : SecretWatcher} {b : Bool}
    (hw : w.Idle b) (h : b = false ∨ e.1 ≠ .init) :
    (routeSecretEvent ns e.2 e.1 w).flush = w.after (secretWrites ns e) (secretBroadcasts ns e) := by
  obtain ⟨event, now⟩ := e
  obtain ⟨cache, relist, batchRelist, pending, sent, applied⟩ := w
  obtain ⟨rfl, rfl, rfl⟩ := hw
  cases event with
  | init =>
    dsimp only at h
    rw [h.resolve_right fun hne => hne rfl]
    exact (SecretWatcher.after_nil _).symm
  | initDone => cases batchRelist <;> exact (SecretWatcher.after_nil _).symm
  | apply secret | initApply secret => cases batchRelist <;> rfl
  | delete secret =>
    have hdelete : SecretWatcher.after ⟨cache, none, batchRelist, none, sent, applied⟩ []
        (secretBroadcasts ns (.delete secret, now)) =
        ⟨cache, none, batchRelist, none, sent ++ secretBroadcasts ns (.delete secret, now), applied⟩ := by
      rw [SecretWatcher.after, List.append_nil]
      rfl
    cases batchRelist <;> exact hdelete.symm

/-- The `Init` of a reconnect opens the buffer. -/
theorem routeSecretEvent_init (ns : String) (now : Instant) {w : SecretWatcher} (hw : w.Idle true) :
    (routeSecretEvent ns now .init w).flush = { w with relist := some [] } := by
  obtain ⟨cache, relist, batchRelist, pending, sent, applied⟩ := w
  obtain ⟨rfl, rfl, rfl⟩ := hw
  rfl

/-- What a stream has written and broadcast once it is over. -/
theorem secretWrites_action (ns : String) (b : Bool) : StreamAction
    (fun stream w => w.after (stream.flatMap (secretWrites ns)) (stream.flatMap (secretBroadcasts ns)))
    (fun w : SecretWatcher => w.Idle b) where
  nil w := w.after_nil
  append x y w := by rw [SecretWatcher.after_after, List.flatMap_append, List.flatMap_append]
  idle _ _ h := h.after _ _

/-- One by one, whatever the stream. -/
theorem pumpSecretEvents_false (ns : String) (stream : TimedEvents Secret) (w : SecretWatcher)
    (hw : w.Idle false) : pumpSecretEvents ns stream w =
      w.after (stream.flatMap (secretWrites ns)) (stream.flatMap (secretBroadcasts ns)) := by
  refine (secretWrites_action ns false).foldl_turns (fun w e hw => ?_) stream w hw
  rw [List.flatMap_singleton, List.flatMap_singleton]
  exact routeSecretEvent_live ns e hw (Or.inl rfl)

/-- **Within a relist the cache stays**, and each secret is broadcast as it comes. -/
theorem pumpSecretEvents_listing (ns : String) : ∀ (objs : List (Secret × Instant))
    (buf : List SecretSnapshot) (w : SecretWatcher), w.relist = some buf → w.pending = none →
      pumpSecretEvents ns (listing objs) w =
        { w with
          relist := some (buf ++ (listing objs).flatMap (secretWrites ns))
          sent := w.sent ++ (listing objs).flatMap (secretBroadcasts ns)
          applied := w.applied ++ (listing objs).flatMap (secretWrites ns) } := by
  intro objs
  induction objs with
  | nil =>
    intro buf w hrelist _
    rw [listing, List.map_nil, List.flatMap_nil, List.flatMap_nil, List.append_nil, List.append_nil,
      List.append_nil, ← hrelist]
    rfl
  | cons o objs ih =>
    intro buf w hrelist hpending
    obtain ⟨cache, relist, batchRelist, pending, sent, applied⟩ := w
    dsimp only at hrelist hpending
    rw [hrelist, hpending, listing, List.map_cons, ← listing, pumpSecretEvents_cons, List.flatMap_cons,
      List.flatMap_cons, ← List.append_assoc, ← List.append_assoc, ← List.append_assoc]
    exact ih (buf ++ secretWrites ns (.initApply o.1, o.2)) _ rfl rfl

/-- Batched, over complete relists. -/
theorem pumpSecretEvents_true (ns : String) {stream : TimedEvents Secret} (h : Framed stream)
    (w : SecretWatcher) (hw : w.Idle true) : pumpSecretEvents ns stream w =
      w.after (stream.flatMap (secretWrites ns)) (stream.flatMap (secretBroadcasts ns)) := by
  refine (secretWrites_action ns true).foldl_framed (fun w e hw hne => ?_) (fun w started objs done hw => ?_)
    h w hw
  · rw [List.flatMap_singleton, List.flatMap_singleton]
    exact routeSecretEvent_live ns e hw (Or.inr hne)
  · have hlist := pumpSecretEvents_listing ns objs [] { w with relist := some [] } rfl hw.pending
    have hdone : (routeSecretEvent ns done .initDone
        (pumpSecretEvents ns (listing objs) { w with relist := some [] })).flush =
        w.after ((listing objs).flatMap (secretWrites ns)) ((listing objs).flatMap (secretBroadcasts ns)) := by
      rw [hlist]
      obtain ⟨cache, relist, batchRelist, pending, sent, applied⟩ := w
      obtain ⟨rfl, rfl, rfl⟩ := hw
      rfl
    change pumpSecretEvents ns _ w = _
    rw [pumpSecretEvents_cons, routeSecretEvent_init ns started hw, pumpSecretEvents_append,
      pumpSecretEvents_cons, hdone, List.flatMap_cons, List.flatMap_cons, List.flatMap_append,
      List.flatMap_append, List.flatMap_singleton, List.flatMap_singleton]
    change w.after _ _ = w.after ((listing objs).flatMap (secretWrites ns) ++ [])
      ((listing objs).flatMap (secretBroadcasts ns) ++ [])
    rw [List.append_nil, List.append_nil]

/-- A snapshot but for when it was loaded. -/
def SecretSnapshot.unloaded (snap : SecretSnapshot) : SecretSnapshot := { snap with loadedAt := 0 }

/-- The writes and the broadcasts of an event do not depend on the clock but for that. -/
theorem secretWrites_unloaded (ns : String) (event : WatchEvent Secret) (now now' : Instant) :
    (secretWrites ns (event, now)).map SecretSnapshot.unloaded =
      (secretWrites ns (event, now')).map SecretSnapshot.unloaded := by
  cases event <;> rfl

theorem secretBroadcasts_eq (ns : String) (event : WatchEvent Secret) (now now' : Instant) :
    secretBroadcasts ns (event, now) = secretBroadcasts ns (event, now') := by
  -- an event is sent as it is parsed, at age zero
  have hproto : ∀ (type : EventType) (secret : Secret),
      (parseSecret now secret ns).toList.map (secretEvent type now) =
        (parseSecret now' secret ns).toList.map (secretEvent type now') := by
    intro type secret
    simp only [parseSecret, secretEvent, secretSnapshotToProto, Nat.sub_self, Option.toList_some,
      List.map_singleton]
    rfl
  cases event with
  | apply secret | initApply secret => exact hproto .modified secret
  | delete secret => exact hproto .deleted secret
  | init | initDone => rfl

/-- The secret caches hold the same, but for when it was loaded, and the same was broadcast. -/
structure SecretWatcher.SameUpToLoad (w w' : SecretWatcher) : Prop where
  cache : AgreeOn SecretSnapshot.unloaded w.cache w'.cache
  sent : w.sent = w'.sent

/-- A watcher at the start of a connection. -/
def SecretWatcher.connected (batchRelist : Bool) (cache : SecretCache) : SecretWatcher :=
  { SecretWatcher.start cache with batchRelist }

theorem secret_batching (ns : String) (cache : SecretCache) :
    BatchingPreserves (fun b stream => pumpSecretEvents ns stream (.connected b cache))
      SecretWatcher.SameUpToLoad SecretWatcher.cache where
  same stream stream' hframed hevents := by
    rw [pumpSecretEvents_true ns hframed _ ⟨rfl, rfl, rfl⟩, pumpSecretEvents_false ns _ _ ⟨rfl, rfl, rfl⟩]
    refine ⟨?_, flatMap_of_events (secretBroadcasts_eq ns) hevents⟩
    refine AgreeOn.foldl_insert ?_ (AgreeOn.refl _ cache) ?_
    · intro snap snap' h
      have hns := congrArg SecretSnapshot.ns h
      have hname := congrArg SecretSnapshot.name h
      exact congrArg₂ Key.mk hns hname
    · rw [List.map_flatMap, List.map_flatMap]
      exact flatMap_of_events (secretWrites_unloaded ns) hevents
  atomic before started objs hframed := by
    have hbefore := pumpSecretEvents_true ns hframed (.connected true cache) ⟨rfl, rfl, rfl⟩
    have hidle : (pumpSecretEvents ns before (.connected true cache)).Idle true := by
      rw [hbefore]
      exact ⟨rfl, rfl, rfl⟩
    rw [pumpSecretEvents_append, pumpSecretEvents_cons, routeSecretEvent_init ns started hidle]
    have hlist := pumpSecretEvents_listing ns objs []
      { pumpSecretEvents ns before (.connected true cache) with relist := some [] } rfl hidle.pending
    rw [hlist]

/-! ### Both watchers -/

/-- **Batching a relist preserves what it means, and is atomic**, for both watchers and
whatever the cache holds. -/
theorem relist_batching (ns : String) (configs : ConfigCache) (secrets : SecretCache) :
    BatchingPreserves (fun b stream => (pumpConfigEvents b stream (none, configs)).2)
        ConfigCache.SameUpToLoad id ∧
      BatchingPreserves (fun b stream => pumpSecretEvents ns stream (.connected b secrets))
        SecretWatcher.SameUpToLoad SecretWatcher.cache :=
  ⟨config_batching configs, secret_batching ns secrets⟩

end Konfig
