import Konfig.Watcher

/-!
# Health

Two tasks write the status of `KonfigService` at the health endpoint.  The readiness
task of `startup.rs` polls the cache and reports SERVING once it is populated; the
shutdown future of `grpc/serve.rs` reports NOT_SERVING after it has set the draining
flag and woken the streams.  The first never looks at the flag.

* `HealthServer.step`: the two tasks beside the watchers that fill the cache.
* `watch_reaches`: what a watcher does to the cache is one of its steps here.
* `stays_not_serving_iff`: after the `set_not_serving` of the shutdown no state is
  SERVING exactly when the readiness task has stopped by then.
-/

namespace Konfig

open Lib

/-- The status of `KonfigService` at the health endpoint. -/
inductive ServingStatus
  | serving
  | notServing
  deriving DecidableEq, Repr

/-- Where the readiness task is. -/
inductive ReadinessPhase
  /-- About to call `is_populated`. -/
  | polling
  | sleeping
  /-- `is_populated` was true: about to call `set_serving`. -/
  | populated
  | stopped
  deriving DecidableEq, Repr

/-- Where the shutdown future is. -/
inductive ShutdownPhase
  /-- `signal.await`. -/
  | running
  /-- The flag is set. -/
  | draining
  /-- `notify_waiters` was called. -/
  | notified
  /-- `set_not_serving` was called: `DRAIN_TIMEOUT` runs. -/
  | notServing
  | elapsed
  deriving DecidableEq, Repr

/-- Whether `set_not_serving` was called. -/
def ShutdownPhase.reported : ShutdownPhase → Bool
  | .notServing | .elapsed => true
  | .running | .draining | .notified => false

structure HealthServer where
  cache : ConfigCache
  draining : Bool
  readiness : ReadinessPhase
  shutdown : ShutdownPhase
  health : ServingStatus

/-- The readiness task is spawned after a first `set_not_serving`. -/
def HealthServer.start : HealthServer :=
  { cache := .empty, draining := false, readiness := .polling, shutdown := .running,
    health := .notServing }

inductive HealthLabel
  /-- A watcher writes to the cache. -/
  | watch (mutations : List ConfigMutation)
  /-- A watcher loses its connection. -/
  | stale (now : Instant)
  | poll
  /-- The 100 ms between two polls are over. -/
  | wake
  | setServing
  /-- The shutdown signal. -/
  | signal
  | notifyWaiters
  | setNotServing
  | drainTimeout

def HealthServer.step (s : HealthServer) : HealthLabel → Option HealthServer
  | .watch mutations => some { s with cache := s.cache.applyBatch mutations }
  | .stale now => some { s with cache := s.cache.markAllStale now }
  | .poll =>
    match s.readiness with
    | .polling =>
      some { s with readiness := if s.cache.isPopulated then .populated else .sleeping }
    | _ => none
  | .wake =>
    match s.readiness with
    | .sleeping => some { s with readiness := .polling }
    | _ => none
  | .setServing =>
    match s.readiness with
    | .populated => some { s with readiness := .stopped, health := .serving }
    | _ => none
  | .signal =>
    match s.shutdown with
    | .running => some { s with shutdown := .draining, draining := true }
    | _ => none
  | .notifyWaiters =>
    match s.shutdown with
    | .draining => some { s with shutdown := .notified }
    | _ => none
  | .setNotServing =>
    match s.shutdown with
    | .notified => some { s with shutdown := .notServing, health := .notServing }
    | _ => none
  | .drainTimeout =>
    match s.shutdown with
    | .notServing => some { s with shutdown := .elapsed }
    | _ => none

/-- What a `ConfigWatcher` does to its cache is one step here. -/
theorem watch_reaches {w w' : ConfigWatcher} {l : ConfigWatcherLabel} (h : w.step l = some w')
    {s : HealthServer} (hcache : s.cache = w.cache) :
    ∃ a, s.step a = some { s with cache := w'.cache } := by
  cases l with
  | event event now =>
    cases h
    refine ⟨.watch ((relistWrites (parseConfigObject now) w.relist event).map .upsert), ?_⟩
    have hwrites := routeConfigEvent_cache now event w.relist (decide (0 < w.attempt)) w.cache
    rw [HealthServer.step, hcache, applyBatch_upserts, ← hwrites]
    rfl
  | errored now | ended now =>
    cases h
    refine ⟨.stale now, ?_⟩
    rw [HealthServer.step, hcache]
    rfl

/-! ### What a step can do -/

/-- The transitions of `HealthServer.step`. -/
inductive HealthServer.Move (s : HealthServer) : HealthLabel → HealthServer → Prop
  | watch {mutations : List ConfigMutation} (cache : ConfigCache) : Move s (.watch mutations) { s with cache }
  | stale {now : Instant} (cache : ConfigCache) : Move s (.stale now) { s with cache }
  | poll (hphase : s.readiness = .polling) :
      Move s .poll { s with readiness := if s.cache.isPopulated then .populated else .sleeping }
  | wake (hphase : s.readiness = .sleeping) : Move s .wake { s with readiness := .polling }
  | setServing (hphase : s.readiness = .populated) :
      Move s .setServing { s with readiness := .stopped, health := .serving }
  | signal (hphase : s.shutdown = .running) :
      Move s .signal { s with shutdown := .draining, draining := true }
  | notifyWaiters (hphase : s.shutdown = .draining) : Move s .notifyWaiters { s with shutdown := .notified }
  | setNotServing (hphase : s.shutdown = .notified) :
      Move s .setNotServing { s with shutdown := .notServing, health := .notServing }
  | drainTimeout (hphase : s.shutdown = .notServing) : Move s .drainTimeout { s with shutdown := .elapsed }

theorem HealthServer.move_of_step {s t : HealthServer} {l : HealthLabel} (h : s.step l = some t) :
    s.Move l t := by
  cases l with
  | watch mutations =>
    cases h
    exact .watch _
  | stale now =>
    cases h
    exact .stale _
  | poll =>
    simp only [HealthServer.step] at h
    split at h
    · cases h
      exact .poll ‹_›
    · cases h
  | wake =>
    simp only [HealthServer.step] at h
    split at h
    · cases h
      exact .wake ‹_›
    · cases h
  | setServing =>
    simp only [HealthServer.step] at h
    split at h
    · cases h
      exact .setServing ‹_›
    · cases h
  | signal =>
    simp only [HealthServer.step] at h
    split at h
    · cases h
      exact .signal ‹_›
    · cases h
  | notifyWaiters =>
    simp only [HealthServer.step] at h
    split at h
    · cases h
      exact .notifyWaiters ‹_›
    · cases h
  | setNotServing =>
    simp only [HealthServer.step] at h
    split at h
    · cases h
      exact .setNotServing ‹_›
    · cases h
  | drainTimeout =>
    simp only [HealthServer.step] at h
    split at h
    · cases h
      exact .drainTimeout ‹_›
    · cases h

/-! ### After `set_not_serving` -/

/-- The shutdown has reported NOT_SERVING, and no one is left to report anything else. -/
structure HealthServer.Retired (s : HealthServer) : Prop where
  stopped : s.readiness = .stopped
  reported : s.shutdown.reported = true
  health : s.health = .notServing

theorem HealthServer.Retired.step {s t : HealthServer} {l : HealthLabel} (hs : s.Retired)
    (h : s.step l = some t) : t.Retired := by
  cases HealthServer.move_of_step h with
  | watch | stale => exact ⟨hs.stopped, hs.reported, hs.health⟩
  | poll hphase => exact absurd (hphase.symm.trans hs.stopped) (by decide)
  | wake hphase => exact absurd (hphase.symm.trans hs.stopped) (by decide)
  | setServing hphase => exact absurd (hphase.symm.trans hs.stopped) (by decide)
  | signal hphase => exact absurd (hphase ▸ hs.reported) (by decide)
  | notifyWaiters hphase => exact absurd (hphase ▸ hs.reported) (by decide)
  | setNotServing hphase => exact absurd (hphase ▸ hs.reported) (by decide)
  | drainTimeout _ => exact ⟨hs.stopped, rfl, hs.health⟩

/-- A readiness task that has not stopped still reports SERVING once something is cached. -/
theorem serves_of_not_stopped {s : HealthServer} (snap : ConfigSnapshot) (h : s.readiness ≠ .stopped) :
    ∃ labels t, run HealthServer.step s labels = some t ∧ t.health = .serving := by
  obtain ⟨cache, draining, readiness, shutdown, health⟩ := s
  cases readiness with
  | polling => exact ⟨[.watch [.upsert snap], .poll, .setServing], _, rfl, rfl⟩
  | sleeping => exact ⟨[.wake, .watch [.upsert snap], .poll, .setServing], _, rfl, rfl⟩
  | populated => exact ⟨[.setServing], _, rfl, rfl⟩
  | stopped => exact absurd rfl h

/-- The first Config that a watcher delivers. -/
def firstConfig : ConfigSnapshot :=
  { name := "limits", ns := "trading", schemaVersion := 1, content := defaultContent,
    resourceVersion := "7", loadedAt := 0 }

/-- **Health stays NOT_SERVING** after the `set_not_serving` of the shutdown, whatever
comes then, exactly when the readiness task has stopped before it. -/
theorem stays_not_serving_iff {before : List HealthLabel} {s s' : HealthServer}
    (hbefore : run HealthServer.step .start before = some s) (hreport : s.step .setNotServing = some s') :
    (∀ after t, run HealthServer.step .start (before ++ .setNotServing :: after) = some t →
      t.health = .notServing) ↔ s.readiness = .stopped := by
  have hsplit : ∀ after, run HealthServer.step .start (before ++ .setNotServing :: after) =
      run HealthServer.step s' after := by
    intro after
    rw [run_append, hbefore, Option.bind_some, run_cons, hreport, Option.bind_some]
  simp only [hsplit]
  cases HealthServer.move_of_step hreport with
  | setNotServing hphase =>
    refine ⟨fun hall => ?_, fun hstopped after t hrun => ?_⟩
    · by_contra hne
      obtain ⟨after, t, hrun, hserving⟩ := serves_of_not_stopped firstConfig
        (s := { s with shutdown := .notServing, health := .notServing }) hne
      have hhealth := hall after t hrun
      rw [hserving] at hhealth
      cases hhealth
    · have hretired := run_induction (fun _ t => t.Retired) ⟨hstopped, rfl, rfl⟩
        (fun _ _ _ _ _ ht h => ht.step h) after t hrun
      exact hretired.health

/-- The labels of a start and a drain in order: the cache fills, and then the signal comes. -/
def servedFirst : List HealthLabel :=
  [.poll, .watch [.upsert firstConfig], .wake, .poll, .setServing, .signal, .notifyWaiters]

/-- A pod that has served is taken out of service for good. -/
theorem stays_not_serving_servedFirst : ∃ s s', run HealthServer.step .start servedFirst = some s ∧
    s.step .setNotServing = some s' ∧ s.health = .serving ∧
      ((∀ after t, run HealthServer.step .start (servedFirst ++ .setNotServing :: after) = some t →
        t.health = .notServing) ↔ s.readiness = .stopped) :=
  ⟨_, _, rfl, rfl, rfl, stays_not_serving_iff rfl rfl⟩

/-- The signal comes before the first event: the pod reports SERVING while it drains. -/
theorem serving_while_draining : ¬ ∀ labels s, run HealthServer.step .start labels = some s →
    s.shutdown.reported = true → s.health = .notServing := by
  intro h
  have hlate := h [.poll, .signal, .notifyWaiters, .setNotServing, .watch [.upsert firstConfig], .wake,
    .poll, .setServing] _ rfl rfl
  cases hlate

end Konfig
