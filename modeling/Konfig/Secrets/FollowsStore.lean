import Konfig.ApiServer
import Konfig.Secrets.Watch

/-!
# The secret cache follows the API server

One namespace's secret watcher on the API server with its history, among the watchers of the
other namespaces.  The list and watch stream selects the secrets that are labelled
`konfig.io/managed=true`: one that loses its label is told as deleted.  The cache, as far as
this namespace goes, is a follower of the store (`Lib.Follower`), whatever the others write and
whenever they lose their streams.

* `SecretWatcher.staged`: the cache, with the relist that is buffered.
* `SecretFeed.Step`: a write, a delivery, the loss of the stream, or a step that the stream does
  not see.
* `SecretFeed.follows`: every step is some of the follower's.
* `secret_cache_follows_store`: while the stream watches, every managed secret it has told is
  served as it is; nothing else is ever cached; no answer is older than an earlier one; and a
  stream that is left alone tells all.
-/

namespace Konfig

open Lib

/-! ### Reading a secret -/

/-- The label selector of `run_namespace_watcher`, in its namespace. -/
def selectsManaged (ns : String) (key : Key) (secret : Secret) : Bool := key.ns = ns && isManaged secret

/-- A snapshot but for the clock and the mark. -/
def SecretSnapshot.timeless (snap : SecretSnapshot) : SecretSnapshot :=
  { snap with loadedAt := 0, staleSince := none }

/-- The watcher of a namespace reads what is in it; a mark may be of any watcher, and is not looked at. -/
def secretReader (ns : String) : Reader Key Secret SecretSnapshot where
  read secret :=
    if secret.metadata.ns = some ns then (parseSecret 0 secret ns).map fun snap => (snap.key, snap) else none
  mark := id
  plain := id
  rank snap := revisionOf snap.resourceVersion
  plain_mark _ := rfl
  rank_plain _ := rfl

variable {ns : String}

/-- What is parsed is filed under the key and the revision that the secret is stored under. -/
theorem StoredAs.parsedSecret {rev : ℕ} {key : Key} {secret : Secret} (h : StoredAs rev key secret.metadata)
    {now : Instant} {snap : SecretSnapshot} (hparse : parseSecret now secret ns = some snap) :
    snap.key = ⟨ns, key.name⟩ ∧ snap.resourceVersion = toString rev := by
  rw [parseSecret, h.name, h.rv] at hparse
  cases hparse
  exact ⟨rfl, rfl⟩

theorem read_secretReader {secret : Secret} (h : secret.metadata.ns = some ns) :
    (secretReader ns).read secret = (parseSecret 0 secret ns).map fun snap => (snap.key, snap) := if_pos h

theorem secretReader_ordered {s : Revisions Key Secret} (h : Dated Secret.metadata s) :
    (secretReader ns).Ordered s := by
  refine h.ordered fun rev key secret k snap hstored hread => ?_
  by_cases hns : secret.metadata.ns = some ns
  · rw [read_secretReader hns] at hread
    obtain ⟨parsed, hparse, heq⟩ := Option.map_eq_some_iff.mp hread
    cases heq
    obtain ⟨hkey, hrv⟩ := hstored.parsedSecret hparse
    obtain rfl : key.ns = ns := Option.some.inj (hstored.ns.symm.trans hns)
    exact ⟨hkey, (congrArg revisionOf hrv).trans (revisionOf_toString rev)⟩
  · cases (if_neg hns : (secretReader ns).read secret = none).symm.trans hread

theorem parseSecret_timeless (now : Instant) (secret : Secret) (ns : String) :
    (parseSecret now secret ns).map SecretSnapshot.timeless = parseSecret 0 secret ns := rfl

/-! ### The cache, as far as one namespace goes -/

/-- What a cache has of a namespace, but for the clock and the marks. -/
def SecretCache.timeless (ns : String) (cache : SecretCache) (key : Key) : Option SecretSnapshot :=
  if key.ns = ns then (cache.lookup key).map SecretSnapshot.timeless else none

namespace SecretCache

theorem timeless_update_self (cache : SecretCache) {snap : SecretSnapshot} (h : snap.ns = ns) :
    (cache.update snap).timeless ns = Function.update (cache.timeless ns) snap.key (some snap.timeless) := by
  have hns : snap.key.ns = ns := h
  funext key
  rw [Function.update_apply, timeless, timeless, update]
  by_cases hkey : key = snap.key
  · rw [if_pos hkey, hkey, AList.lookup_insert, if_pos hns]
    rfl
  · rw [if_neg hkey, AList.lookup_insert_ne hkey]

/-- What another namespace's watcher writes. -/
theorem timeless_update_of_ne (cache : SecretCache) {snap : SecretSnapshot} (h : snap.ns ≠ ns) :
    (cache.update snap).timeless ns = cache.timeless ns := by
  funext key
  rw [timeless, timeless, update]
  by_cases hkey : key.ns = ns
  · have hne : key ≠ snap.key := by
      rintro rfl
      exact h hkey
    rw [AList.lookup_insert_ne hne]
  · rw [if_neg hkey, if_neg hkey]

theorem timeless_markAllStale (cache : SecretCache) (now : Instant) :
    (cache.markAllStale now).timeless ns = cache.timeless ns := by
  funext key
  rw [timeless, timeless, markAllStale, Map.lookup_mapVals]
  cases cache.lookup key <;> rfl

/-- A batch of this namespace does the same to caches that have the same of it. -/
theorem timeless_applyBatch {buf : List SecretSnapshot} (hbuf : ∀ snap ∈ buf, snap.ns = ns) :
    ∀ {cache cache' : SecretCache}, cache.timeless ns = cache'.timeless ns →
      (cache.applyBatch buf).timeless ns = (cache'.applyBatch buf).timeless ns := by
  induction buf with
  | nil => intro cache cache' h; exact h
  | cons snap buf ih =>
    intro cache cache' h
    rw [List.forall_mem_cons] at hbuf
    refine ih hbuf.2 ?_
    rw [timeless_update_self cache hbuf.1, timeless_update_self cache' hbuf.1, h]

end SecretCache

/-! ### The feed -/

/-- The cache once the buffered relist is committed. -/
def SecretWatcher.staged (w : SecretWatcher) : SecretCache := w.cache.applyBatch (w.relist.getD [])

/-- The API server, the stream, and the watcher of a namespace. -/
structure SecretFeed where
  store : Revisions Key Secret
  pos : Position Key
  watcher : SecretWatcher

def SecretFeed.start (s : Revisions Key Secret) : SecretFeed := ⟨s, .lost, .start ∅⟩

/-- What the stream and the watcher do by themselves, as long as the stream is not lost. -/
inductive SecretFeed.Told (ns : String) : SecretFeed → SecretFeed → Prop
  | silent {x : SecretFeed} {pos' : Position Key} : Delivers x.store (selectsManaged ns) x.pos none pos' →
      Told ns x { x with pos := pos' }
  | event {x : SecretFeed} {event : WatchEvent Secret} {pos' : Position Key} {w' : SecretWatcher} (now : Instant) :
      Delivers x.store (selectsManaged ns) x.pos (some event) pos' →
      x.watcher.step ns (.event event now) = some w' → Told ns x ⟨x.store, pos', w'⟩
  | send {x : SecretFeed} {w' : SecretWatcher} : x.watcher.step ns .send = some w' →
      Told ns x { x with watcher := w' }

inductive SecretFeed.Step (ns : String) : SecretFeed → SecretFeed → Prop
  | written {x : SecretFeed} {s' : Revisions Key Secret} : Written Secret.metadata x.store s' →
      Step ns x { x with store := s' }
  | told {x x' : SecretFeed} : x.Told ns x' → Step ns x x'
  | lost {x : SecretFeed} {now : Instant} {w' : SecretWatcher} :
      x.watcher.step ns (.disconnect now) = some w' → Step ns x ⟨x.store, .lost, w'⟩
  /-- Another namespace's watcher writes the cache. -/
  | foreign {x : SecretFeed} {snap : SecretSnapshot} {w' : SecretWatcher} :
      x.watcher.step ns (.foreign snap) = some w' → Step ns x { x with watcher := w' }
  /-- Another namespace's watcher loses its stream. -/
  | foreignStale {x : SecretFeed} {now : Instant} {w' : SecretWatcher} :
      x.watcher.step ns (.foreignStale now) = some w' → Step ns x { x with watcher := w' }

/-- The follower that the watcher is. -/
def SecretFeed.follower (ns : String) (x : SecretFeed) : Follower Key Secret SecretSnapshot where
  store := x.store
  pos := x.pos
  shown := x.watcher.cache.timeless ns
  staged := x.watcher.staged.timeless ns

/-- The stored secrets are dated, a buffer is of this namespace, and there is none while the stream
watches. -/
structure SecretFeed.Inv (ns : String) (x : SecretFeed) : Prop where
  dated : Dated Secret.metadata x.store
  buffered : ∀ buf ∈ x.watcher.relist, ∀ snap ∈ buf, snap.ns = ns
  idle : ∀ r, x.pos = .watching r → x.watcher.relist = none

theorem SecretWatcher.staged_idle {w : SecretWatcher} (h : w.relist = none) : w.staged = w.cache := by
  rw [staged, h]
  rfl

/-! ### One event -/

/-- What an event does to a watcher, as far as the stream goes. -/
structure SecretWatcher.Takes (ns : String) (w : SecretWatcher) (event : WatchEvent Secret) (w' : SecretWatcher) :
    Prop where
  staged : w'.staged.timeless ns = (secretReader ns).absorb (w.staged.timeless ns) (some event)
  cache : w'.relist = none ∨ w'.cache = w.cache
  buffered : ∀ buf ∈ w'.relist, ∀ snap ∈ buf, snap.ns = ns
  closed : event = .initDone → w'.relist = none
  idle : event ≠ .init → w.relist = none → w'.relist = none

variable {w w' : SecretWatcher} {event : WatchEvent Secret} {now : Instant}

/-- A secret of the namespace is written to a cache as it is read. -/
theorem timeless_update_parsed (cache : SecretCache) {secret : Secret} {snap : SecretSnapshot}
    (hevent : event.applied = some secret) (hns : secret.metadata.ns = some ns)
    (hparse : parseSecret now secret ns = some snap) :
    (cache.update snap).timeless ns = (secretReader ns).absorb (cache.timeless ns) (some event) := by
  have hread : (secretReader ns).read secret = some (snap.key, snap.timeless) := by
    rw [read_secretReader hns, ← parseSecret_timeless now, hparse]
    rfl
  rw [Reader.absorb_applied hevent, hread]
  exact cache.timeless_update_self (parseSecret_ns hparse)

theorem SecretWatcher.takes_event (hbuf : ∀ buf ∈ w.relist, ∀ snap ∈ buf, snap.ns = ns)
    (hstep : w.step ns (.event event now) = some w')
    (hns : ∀ secret, event.applied = some secret → secret.metadata.ns = some ns)
    (hlive : ∀ secret, event = .apply secret → w.relist = none) : w.Takes ns event w' := by
  have hroute : w' = routeSecretEvent ns now event w := by
    simp only [SecretWatcher.step] at hstep
    split at hstep
    · exact (Option.some.inj hstep).symm
    · cases hstep
  subst hroute
  obtain ⟨cache, relist, batchRelist, pending, sent, applied⟩ := w
  have hnone : ∀ buf ∈ (none : Option (List SecretSnapshot)), ∀ snap ∈ buf, snap.ns = ns := fun _ h => by cases h
  cases relist with
  | none =>
    cases event with
    | apply secret | initApply secret =>
      obtain ⟨snap, hparse⟩ : ∃ snap, parseSecret now secret ns = some snap := ⟨_, rfl⟩
      have hupdate := timeless_update_parsed cache (rfl : (WatchEvent.apply secret).applied = some secret)
        (hns secret rfl) hparse
      cases hparse
      cases batchRelist <;> exact ⟨hupdate, .inl rfl, hnone, fun _ => rfl, fun _ _ => rfl⟩
    | delete secret => cases batchRelist <;> exact ⟨rfl, .inl rfl, hnone, fun _ => rfl, fun _ _ => rfl⟩
    | init =>
      cases batchRelist with
      | false => exact ⟨rfl, .inl rfl, hnone, fun _ => rfl, fun _ _ => rfl⟩
      | true =>
        refine ⟨rfl, .inr rfl, fun buf h => ?_, fun h => (by cases h), fun h => absurd rfl h⟩
        cases h
        exact fun _ h => absurd h List.not_mem_nil
    | initDone => cases batchRelist <;> exact ⟨rfl, .inl rfl, hnone, fun _ => rfl, fun _ _ => rfl⟩
  | some buf =>
    have hopen : some buf ≠ (none : Option (List SecretSnapshot)) := fun h => by cases h
    cases event with
    | apply secret => exact absurd (hlive secret rfl) hopen
    | initApply secret =>
      obtain ⟨snap, hparse⟩ : ∃ snap, parseSecret now secret ns = some snap := ⟨_, rfl⟩
      have hupdate := timeless_update_parsed (cache.applyBatch buf)
        (rfl : (WatchEvent.initApply secret).applied = some secret) (hns secret rfl) hparse
      have hsnap : snap.ns = ns := parseSecret_ns hparse
      cases hparse
      refine ⟨?_, .inr rfl, fun buf' h => ?_, fun h => (by cases h), fun _ h => absurd h hopen⟩
      · exact (congrArg (SecretCache.timeless ns) List.foldl_append).trans hupdate
      · cases h
        intro snap' hmem
        rcases List.mem_append.mp hmem with hmem | hmem
        · exact hbuf buf rfl snap' hmem
        · rw [List.mem_singleton.mp hmem]
    | initDone => exact ⟨rfl, .inl rfl, hnone, fun _ => rfl, fun _ _ => rfl⟩
    | delete secret | init => exact ⟨rfl, .inr rfl, hbuf, fun h => (by cases h), fun _ h => absurd h hopen⟩

/-- A step of another watcher, and the send, leave what this one has of its namespace. -/
theorem SecretWatcher.staged_congr {w : SecretWatcher} {cache : SecretCache}
    (hbuf : ∀ buf ∈ w.relist, ∀ snap ∈ buf, snap.ns = ns) (hcache : cache.timeless ns = w.cache.timeless ns) :
    (SecretWatcher.staged { w with cache }).timeless ns = w.staged.timeless ns := by
  refine SecretCache.timeless_applyBatch (fun snap hsnap => ?_) hcache
  cases hr : w.relist with
  | none =>
    rw [hr] at hsnap
    cases hsnap
  | some buf =>
    rw [hr] at hsnap
    exact hbuf buf hr snap hsnap

/-! ### The feed is a follower -/

variable {x x' : SecretFeed}

/-- What is selected is of the namespace. -/
theorem ns_of_selected {s : Revisions Key Secret} (hs : Dated Secret.metadata s) {n : ℕ} {key : Key}
    {secret : Secret} (h : s.selected (selectsManaged ns) n key = some secret) :
    key.ns = ns ∧ secret.metadata.ns = some ns := by
  obtain ⟨hat, hsel⟩ := Revisions.selected_eq_some.mp h
  obtain ⟨m, -, hstored, -⟩ := hs.stored n key secret hat
  rw [selectsManaged, Bool.and_eq_true, decide_eq_true_eq] at hsel
  exact ⟨hsel.1, hstored.ns.trans (congrArg some hsel.1)⟩

theorem ns_of_delivered {s : Revisions Key Secret} (hs : Dated Secret.metadata s) {pos pos' : Position Key}
    (hdel : Delivers s (selectsManaged ns) pos (some event) pos') :
    ∀ secret, event.applied = some secret → secret.metadata.ns = some ns := by
  intro secret hevent
  cases hdel with
  | init | initDone | delete => cases hevent
  | initApply hat | apply _ hat _ =>
    cases hevent
    exact (ns_of_selected hs hat).2

/-- It is read under its key. -/
theorem read_selected {s : Revisions Key Secret} (hs : Dated Secret.metadata s) {n : ℕ} {key : Key}
    {secret : Secret} (h : s.selected (selectsManaged ns) n key = some secret) :
    ∃ snap, (secretReader ns).read secret = some (key, snap) := by
  obtain ⟨hkey, hns⟩ := ns_of_selected hs h
  obtain ⟨m, -, hstored, -⟩ := hs.stored n key secret (Revisions.selected_eq_some.mp h).1
  obtain ⟨snap, hparse⟩ : ∃ snap, parseSecret 0 secret ns = some snap := ⟨_, rfl⟩
  refine ⟨snap, ?_⟩
  rw [read_secretReader hns, hparse, Option.map_some, (hstored.parsedSecret hparse).1, ← hkey]

/-- What is told to the watcher is told to the follower; of a send it sees nothing. -/
theorem SecretFeed.Told.follows (h : x.Inv ns) (htold : x.Told ns x') :
    x'.Inv ns ∧ Relation.ReflTransGen (Follower.Step (secretReader ns) (selectsManaged ns)) (x.follower ns)
      (x'.follower ns) := by
  obtain ⟨s, pos, w⟩ := x
  cases htold with
  | @silent pos' hdel =>
    cases hdel with
    | @list left hleft =>
      have hlist : Delivers s (selectsManaged ns) .begun none (.listing s.rev left) := .list hleft
      have hpos : ∀ r, Position.listing s.rev left ≠ .watching r := fun _ heq => by cases heq
      have hstages : Follower.Step (secretReader ns) (selectsManaged ns)
          ⟨s, .begun, w.cache.timeless ns, w.staged.timeless ns⟩
          ⟨s, .listing s.rev left, w.cache.timeless ns, (secretReader ns).absorb (w.staged.timeless ns) none⟩ :=
        .stages hlist hpos
      exact ⟨⟨h.dated, h.buffered, fun r heq => absurd heq (hpos r)⟩, .single hstages⟩
    | @skip r hr hsame =>
      have hidle : w.relist = none := h.idle r rfl
      have hskip : Delivers s (selectsManaged ns) (.watching r) none (.watching (r + 1)) := .skip hr hsame
      refine ⟨⟨h.dated, h.buffered, fun _ _ => hidle⟩, ?_⟩
      unfold SecretFeed.follower
      rw [SecretWatcher.staged_idle hidle]
      have hshows : Follower.Step (secretReader ns) (selectsManaged ns)
          ⟨s, .watching r, w.cache.timeless ns, w.cache.timeless ns⟩
          ⟨s, .watching (r + 1), (secretReader ns).absorb (w.cache.timeless ns) none,
            (secretReader ns).absorb (w.cache.timeless ns) none⟩ := .shows hskip
      exact .single hshows
  | @event event pos' w' now hdel hstep =>
    have hlive : ∀ secret, event = .apply secret → w.relist = none := by
      rintro secret rfl
      cases hdel with
      | apply => exact h.idle _ rfl
    have htakes := SecretWatcher.takes_event h.buffered hstep (ns_of_delivered h.dated hdel) hlive
    have hidle : ∀ r, pos' = .watching r → w'.relist = none := by
      rintro r rfl
      cases hdel with
      | initDone => exact htakes.closed rfl
      | apply | delete => exact htakes.idle (fun heq => by cases heq) (h.idle _ rfl)
    refine ⟨⟨h.dated, htakes.buffered, hidle⟩, .single ?_⟩
    unfold SecretFeed.follower
    rw [htakes.staged]
    by_cases hrelist : w'.relist = none
    · rw [← SecretWatcher.staged_idle hrelist, htakes.staged]
      exact .shows hdel
    · rw [htakes.cache.resolve_left hrelist]
      exact .stages hdel fun r heq => hrelist (hidle r heq)
  | @send w' hstep =>
    simp only [SecretWatcher.step] at hstep
    split at hstep
    · cases hstep
    · cases hstep
      exact ⟨⟨h.dated, h.buffered, h.idle⟩, .refl⟩

/-- What another watcher does to the cache, the follower does not see. -/
theorem SecretFeed.follows_foreign (h : x.Inv ns) {cache : SecretCache}
    (hcache : cache.timeless ns = x.watcher.cache.timeless ns) :
    (SecretFeed.mk x.store x.pos { x.watcher with cache }).Inv ns ∧
      Relation.ReflTransGen (Follower.Step (secretReader ns) (selectsManaged ns)) (x.follower ns)
        (SecretFeed.follower ns ⟨x.store, x.pos, { x.watcher with cache }⟩) := by
  refine ⟨⟨h.dated, h.buffered, h.idle⟩, ?_⟩
  unfold SecretFeed.follower
  rw [SecretWatcher.staged_congr h.buffered hcache, hcache]

/-- **A step of the feed is some of the follower's.** -/
theorem SecretFeed.follows (h : x.Inv ns) (hstep : x.Step ns x') :
    x'.Inv ns ∧ Relation.ReflTransGen (Follower.Step (secretReader ns) (selectsManaged ns)) (x.follower ns)
      (x'.follower ns) := by
  cases hstep with
  | written hw =>
    obtain ⟨hext, hdated⟩ := h.dated.written hw
    exact ⟨⟨hdated, h.buffered, h.idle⟩, .single (.stores hext (secretReader_ordered hdated))⟩
  | told htold => exact htold.follows h
  | @lost now w' hstep =>
    simp only [SecretWatcher.step] at hstep
    split at hstep
    · cases hstep
      have hloss : Follower.Step (secretReader ns) (selectsManaged ns) (x.follower ns)
          ⟨x.store, .lost, (x.watcher.cache.markAllStale now).timeless ns,
            (x.watcher.cache.markAllStale now).timeless ns⟩ := by
        have hmark : (fun key => ((x.follower ns).shown key).map (secretReader ns).mark) =
            (x.watcher.cache.markAllStale now).timeless ns := by
          funext key
          rw [SecretCache.timeless_markAllStale]
          exact Option.map_id_apply
        rw [← hmark]
        exact .loses
      exact ⟨⟨h.dated, fun _ hbuf => (by cases hbuf), fun _ heq => (by cases heq)⟩, .single hloss⟩
    · cases hstep
  | @foreign snap w' hstep =>
    simp only [SecretWatcher.step] at hstep
    split at hstep
    · cases hstep
    · next hns =>
      cases hstep
      exact SecretFeed.follows_foreign h (SecretCache.timeless_update_of_ne _ hns)
  | @foreignStale now w' hstep =>
    cases hstep
    exact SecretFeed.follows_foreign h (SecretCache.timeless_markAllStale _ now)

/-! ### Runs -/

theorem SecretFeed.inv_start (ns : String) {s : Revisions Key Secret} (hs : Dated Secret.metadata s) :
    (SecretFeed.start s).Inv ns ∧
      ((SecretFeed.start s).follower ns).Inv (secretReader ns) (selectsManaged ns) := by
  have hempty : SecretCache.timeless ns ∅ = fun _ => none := by
    funext key
    rw [SecretCache.timeless, AList.lookup_empty, Option.map_none, ite_self]
  have hfollower : (SecretFeed.start s).follower ns = ⟨s, .lost, fun _ => none, fun _ => none⟩ := by
    rw [← hempty]
    rfl
  refine ⟨⟨hs, fun _ hbuf => (by cases hbuf), fun _ heq => (by cases heq)⟩, ?_⟩
  rw [hfollower]
  exact Follower.inv_start (secretReader_ordered hs)

theorem SecretFeed.follows_run (h : x.Inv ns) (hrun : Relation.ReflTransGen (SecretFeed.Step ns) x x') :
    x'.Inv ns ∧ Relation.ReflTransGen (Follower.Step (secretReader ns) (selectsManaged ns)) (x.follower ns)
      (x'.follower ns) := by
  induction hrun with
  | refl => exact ⟨h, .refl⟩
  | tail _ hstep ih =>
    obtain ⟨hinv, hfollows⟩ := SecretFeed.follows ih.1 hstep
    exact ⟨hinv, ih.2.trans hfollows⟩

/-- Whatever the stream can deliver, the watcher takes, after it has sent what is pending. -/
theorem SecretFeed.told_of_next {pos' : Position Key}
    (h : Position.Next x.store (selectsManaged ns) x.pos pos') : ∃ x', x.Told ns x' := by
  obtain ⟨event, hdel⟩ := h
  cases event with
  | none => exact ⟨_, .silent hdel⟩
  | some event =>
    cases hpending : x.watcher.pending with
    | some sent =>
      have hstep : x.watcher.step ns .send =
          some { x.watcher with pending := none, sent := x.watcher.sent ++ [sent] } := by
        simp only [SecretWatcher.step, hpending]
      exact ⟨_, .send hstep⟩
    | none =>
      have hstep : x.watcher.step ns (.event event 0) = some (routeSecretEvent ns 0 event x.watcher) := by
        simp only [SecretWatcher.step, hpending]
      exact ⟨_, .event 0 hdel hstep⟩

theorem SecretFeed.store_of_told (h : Relation.ReflTransGen (SecretFeed.Told ns) x x') : x'.store = x.store := by
  induction h with
  | refl => rfl
  | tail _ htold ih =>
    cases htold with
    | silent _ | event _ _ _ | send _ => exact ih

theorem SecretWatcher.send_pending (h : w.step ns .send = some w') : w.pending ≠ none ∧ w'.pending = none := by
  simp only [SecretWatcher.step] at h
  cases hpending : w.pending with
  | none =>
    rw [hpending] at h
    cases h
  | some event =>
    rw [hpending] at h
    cases h
    exact ⟨Option.some_ne_none _, rfl⟩

/-- The stream ends its telling as it does without the watcher: between two of its deliveries there
is one event to send. -/
theorem SecretFeed.acc_told {s : Revisions Key Secret} {pos : Position Key}
    (h : Acc (fun b a => Position.Next s (selectsManaged ns) a b) pos) :
    ∀ w, Acc (fun b a => SecretFeed.Told ns a b) ⟨s, pos, w⟩ := by
  induction h with
  | intro pos _ ih =>
    have hidle : ∀ w : SecretWatcher, w.pending = none → Acc (fun b a => SecretFeed.Told ns a b) ⟨s, pos, w⟩ := by
      intro w hpending
      refine .intro _ fun y htold => ?_
      cases htold with
      | silent hdel => exact ih _ ⟨_, hdel⟩ _
      | event _ hdel _ => exact ih _ ⟨_, hdel⟩ _
      | send hsend => exact absurd hpending (SecretWatcher.send_pending hsend).1
    intro w
    refine .intro _ fun y htold => ?_
    cases htold with
    | silent hdel => exact ih _ ⟨_, hdel⟩ _
    | event _ hdel _ => exact ih _ ⟨_, hdel⟩ _
    | send hsend => exact hidle _ (SecretWatcher.send_pending hsend).2

/-- The stream watches the last revision of a store. -/
def SecretFeed.At (s : Revisions Key Secret) (x : SecretFeed) : Prop := x.store = s ∧ x.pos = .watching s.rev

/-- **A stream that is left alone settles** on the last revision. -/
theorem SecretFeed.settles (h : x.Inv ns) (hf : (x.follower ns).Inv (secretReader ns) (selectsManaged ns)) :
    Settles (SecretFeed.Told ns) (SecretFeed.At x.store) x := by
  have hacc := Position.acc_next x.store (selectsManaged ns) x.pos
  refine .of_acc (SecretFeed.acc_told hacc x.watcher) fun y htold => ?_
  obtain ⟨hinv, hfollows⟩ := SecretFeed.follows_run h (htold.lift id fun _ _ => SecretFeed.Step.told)
  have hstore := SecretFeed.store_of_told htold
  rcases (hf.run hfollows).1.told.next hinv.dated.sequential with hpos | ⟨pos', hnext⟩
  · exact .inl ⟨hstore, hpos.trans (congrArg (fun s : Revisions Key Secret => Position.watching s.rev) hstore)⟩
  · exact .inr (SecretFeed.told_of_next hnext)

/-! ### What is read -/

theorem parseSecret_of_read {secret : Secret} {key : Key} {got : SecretSnapshot}
    (hread : (secretReader ns).read secret = some (key, got.timeless)) :
    parseSecret got.loadedAt secret ns = some { got with staleSince := none } := by
  have hparse : parseSecret 0 secret ns = some got.timeless := by
    simp only [secretReader] at hread
    split at hread
    · obtain ⟨parsed, hparse, heq⟩ := Option.map_eq_some_iff.mp hread
      exact hparse.trans (congrArg some (congrArg Prod.snd heq))
    · cases hread
  have hat : parseSecret got.loadedAt secret ns =
      (parseSecret 0 secret ns).map fun snap => { snap with loadedAt := got.loadedAt } := rfl
  rw [hat, hparse]
  rfl

theorem SecretFeed.shown_of_lookup {key : Key} {got : SecretSnapshot} (hns : key.ns = ns)
    (hgot : x.watcher.cache.lookup key = some got) : (x.follower ns).shown key = some got.timeless := by
  show SecretCache.timeless ns x.watcher.cache key = _
  rw [SecretCache.timeless, if_pos hns, hgot]
  rfl

theorem SecretFeed.lookup_of_shown {key : Key} {snap : SecretSnapshot}
    (hshown : (x.follower ns).shown key = some snap) :
    ∃ got, x.watcher.cache.lookup key = some got ∧ got.timeless = snap := by
  change SecretCache.timeless ns x.watcher.cache key = some snap at hshown
  rw [SecretCache.timeless] at hshown
  split at hshown
  · exact Option.map_eq_some_iff.mp hshown
  · cases hshown

/-- What is cached of the namespace was stored there, managed, under the resource version that it shows. -/
theorem SecretFeed.cached_stored {key : Key} {got : SecretSnapshot} (h : x.Inv ns)
    (hf : (x.follower ns).Inv (secretReader ns) (selectsManaged ns)) (hns : key.ns = ns)
    (hgot : x.watcher.cache.lookup key = some got) :
    (∃ n ≤ x.store.rev, ∃ secret, x.store.selected (selectsManaged ns) n key = some secret ∧
      parseSecret got.loadedAt secret ns = some { got with staleSince := none }) ∧
    got.resourceVersion = toString (revisionOf got.resourceVersion) := by
  obtain ⟨n, hn, secret, snap, hsecret, hread, hplain⟩ := hf.shown key _ (shown_of_lookup hns hgot)
  obtain rfl : snap = got.timeless := hplain
  have hparse := parseSecret_of_read hread
  refine ⟨⟨n, hn.trans hf.told.reached, secret, hsecret, hparse⟩, ?_⟩
  obtain ⟨m, -, hstored, -⟩ := h.dated.stored n key secret (Revisions.selected_eq_some.mp hsecret).1
  have hrv : got.resourceVersion = toString m := (hstored.parsedSecret hparse).2
  rw [hrv, revisionOf_toString]

/-- **The secret cache follows the API server.**  While the stream watches, every managed secret of
the last revision that it has told is served as it is.  Whatever is cached of the namespace was
stored there and managed, and no later answer is older.  From any state, however a stream that is not
lost goes on while nobody writes, it comes to an end, and that is at the last revision. -/
theorem secret_cache_follows_store {s : Revisions Key Secret} (hs : Dated Secret.metadata s)
    (hrun : Relation.ReflTransGen (SecretFeed.Step ns) (.start s) x) :
    (∀ r key secret, x.pos = .watching r → x.store.selected (selectsManaged ns) r key = some secret →
      ∃ got, x.watcher.cache.lookup key = some got ∧
        parseSecret got.loadedAt secret ns = some { got with staleSince := none }) ∧
    (∀ key got, key.ns = ns → x.watcher.cache.lookup key = some got →
      (∃ n ≤ x.store.rev, ∃ secret, x.store.selected (selectsManaged ns) n key = some secret ∧
        parseSecret got.loadedAt secret ns = some { got with staleSince := none }) ∧
      ∀ later, Relation.ReflTransGen (SecretFeed.Step ns) x later →
        ∃ got', later.watcher.cache.lookup key = some got' ∧
          ∃ n n' : ℕ, got.resourceVersion = toString n ∧ got'.resourceVersion = toString n' ∧ n ≤ n') ∧
    Settles (SecretFeed.Told ns) (SecretFeed.At x.store) x := by
  obtain ⟨hstart, hfstart⟩ := SecretFeed.inv_start ns hs
  obtain ⟨hinv, hfollows⟩ := SecretFeed.follows_run hstart hrun
  have hf := (hfstart.run hfollows).1
  refine ⟨fun r key secret hpos hsecret => ?_, fun key got hns hgot =>
    ⟨(SecretFeed.cached_stored hinv hf hns hgot).1, fun later hlater => ?_⟩, SecretFeed.settles hinv hf⟩
  · obtain ⟨snap, hread⟩ := read_selected hinv.dated hsecret
    obtain ⟨got, hgot, rfl⟩ := SecretFeed.lookup_of_shown (hf.current hpos hsecret hread)
    exact ⟨got, hgot, parseSecret_of_read hread⟩
  · obtain ⟨hinv', hfollows'⟩ := SecretFeed.follows_run hinv hlater
    obtain ⟨hf', hbefore⟩ := hf.run hfollows'
    obtain ⟨snap', hshown', hrank⟩ := hbefore key _ (SecretFeed.shown_of_lookup hns hgot)
    obtain ⟨got', hgot', rfl⟩ := SecretFeed.lookup_of_shown hshown'
    have hrv := (SecretFeed.cached_stored hinv hf hns hgot).2
    have hrv' := (SecretFeed.cached_stored hinv' hf' hns hgot').2
    exact ⟨got', hgot', _, _, hrv, hrv', hrank⟩

/-- An API server without secrets. -/
def emptyServer : Revisions Key Secret := ⟨0, [], fun _ h => absurd h List.not_mem_nil⟩

/-- The first revision of the managed secret `trading/keys`. -/
def managedKeys : Secret where
  metadata :=
    { name := some "keys", ns := some "trading", resourceVersion := some "1",
      labels := some [(MANAGED_LABEL, "true")] }
  data := none

/-- It is stored, and the stream tells all. -/
theorem secret_cache_follows_keys : ∃ x got,
    Relation.ReflTransGen (SecretFeed.Step "trading") (.start emptyServer) x ∧ x.pos = .watching 1 ∧
      x.watcher.cache.lookup ⟨"trading", "keys"⟩ = some got ∧
      parseSecret got.loadedAt managedKeys "trading" = some { got with staleSince := none } := by
  have hdated : Dated Secret.metadata emptyServer := dated_empty _
  have hwritten : Written Secret.metadata emptyServer
      (emptyServer.write ⟨"trading", "keys"⟩ (some managedKeys)) := by
    refine ⟨_, _, rfl, fun secret hsecret => ?_⟩
    obtain rfl := Option.some.inj hsecret
    exact ⟨rfl, rfl, rfl⟩
  have hfirst : Relation.ReflTransGen (SecretFeed.Step "trading") (.start emptyServer)
      ⟨emptyServer.write ⟨"trading", "keys"⟩ (some managedKeys), .lost, .start ∅⟩ := .single (.written hwritten)
  obtain ⟨-, -, hsettles⟩ := secret_cache_follows_store hdated hfirst
  obtain ⟨x, htold, hstore, hpos⟩ := hsettles.comes
  have hrun := hfirst.trans (htold.lift id fun _ _ => SecretFeed.Step.told)
  obtain ⟨hcurrent, -⟩ := secret_cache_follows_store hdated hrun
  have hselected : x.store.selected (selectsManaged "trading") 1 ⟨"trading", "keys"⟩ = some managedKeys := by
    rw [hstore]
    rfl
  obtain ⟨got, hgot, hparse⟩ := hcurrent 1 _ _ hpos hselected
  exact ⟨x, got, hrun, hpos, hgot, hparse⟩

end Konfig
