import Konfig.ApiServer
import Konfig.Provenance
import Konfig.Relist

/-!
# The config cache follows the API server

The API server with its history, the list and watch stream of `Watcher::run`, and the watcher
that fills the cache.  Anybody writes, at any time; the stream errors or ends at any point, also
while it lists, and the next one lists anew.  The cache is a follower of the store
(`Lib.Follower`), whether a relist is applied one by one or as one batch.

* `ConfigWatcher.pending`: the cache, with the relist that is buffered.
* `CacheFeed.Step`: a write, a delivery, or the loss of the stream.
* `CacheFeed.follows`: every step is one of the follower.
* `cache_follows_store`: while the stream watches, what it has told is served as it is and not
  marked stale; no answer is older than an earlier one; and a stream that is left alone tells all.
-/

namespace Konfig

open Lib

/-! ### The API server -/

theorem AppliedAs.storedAs {rev : ℕ} {key : Key} {body : Value} {obj : DynamicObject}
    (h : AppliedAs rev key body obj) : StoredAs rev key obj.metadata := ⟨h.name, h.ns, h.rv⟩

/-- One write of a config, or one delete. -/
abbrev Etcd.Written : Etcd → Etcd → Prop := Konfig.Written DynamicObject.metadata

abbrev Etcd.Dated : Etcd → Prop := Konfig.Dated DynamicObject.metadata

/-- What a call of konfig does to the API server, and what others do before it, are such writes. -/
theorem Etcd.Answer.written {s s' : Etcd} {o : KubeOp} {r : o.Resp} (h : Etcd.Answer s o r s') :
    Relation.ReflTransGen Etcd.Written s s' := by
  have happlied : ∀ {s : Etcd} {key : Key} {body : Value} {obj : DynamicObject},
      AppliedAs (s.rev + 1) key body obj → Etcd.Written s (s.write key (some obj)) := by
    intro s key body obj happ
    refine ⟨key, some obj, rfl, fun o ho => ?_⟩
    obtain rfl := Option.some.inj ho
    exact happ.storedAs
  induction h with
  | found _ | missing _ | getFailed _ | patchFailed | listed _ _ | listFailed => exact .refl
  | patched happ | patchLost happ => exact .single (happlied happ)
  | @deleted s s' key o r _ ih => exact .head ⟨key, none, rfl, fun _ ho => absurd ho (Option.not_mem_none _)⟩ ih
  | touched _ happ _ ih => exact .head (happlied happ) ih

/-! ### Reading a config -/

/-- A snapshot but for the clock: whether it is marked remains. -/
def ConfigSnapshot.timeless (snap : ConfigSnapshot) : ConfigSnapshot :=
  { snap with loadedAt := 0, staleSince := snap.staleSince.map fun _ => 0 }

/-- The watcher reads what it can parse. -/
def configReader : Reader Key DynamicObject ConfigSnapshot where
  read obj := (parseConfigObject 0 obj).map fun snap => (snap.key, snap)
  mark snap := snap.setStale 0
  plain snap := { snap with staleSince := none }
  rank snap := revisionOf snap.resourceVersion
  plain_mark _ := rfl
  rank_plain _ := rfl

theorem parseConfigObject_timeless (now : Instant) (obj : DynamicObject) :
    (parseConfigObject now obj).map ConfigSnapshot.timeless = parseConfigObject 0 obj := by
  unfold parseConfigObject
  cases obj.data.get "spec" with
  | none => rfl
  | some specValue =>
    dsimp only [Option.bind_eq_bind, Option.bind_some]
    cases ConfigSpec.fromValue specValue with
    | none => rfl
    | some spec => rfl

/-- What is parsed is filed under the key and the revision that the document is stored under. -/
theorem StoredAs.parsed {rev : ℕ} {key : Key} {obj : DynamicObject} (h : StoredAs rev key obj.metadata)
    {now : Instant} {snap : ConfigSnapshot} (hparse : parseConfigObject now obj = some snap) :
    snap.key = key ∧ snap.resourceVersion = toString rev := by
  unfold parseConfigObject at hparse
  simp only [Option.bind_eq_bind, Option.bind_eq_some_iff, h.name, h.ns, h.rv, Option.getD_some] at hparse
  obtain ⟨_, _, spec, _, hparse⟩ := hparse
  cases hparse
  exact ⟨rfl, rfl⟩

theorem configReader_ordered {s : Etcd} (h : s.Dated) : configReader.Ordered s := by
  refine h.ordered fun rev key obj k snap hstored hread => ?_
  obtain ⟨parsed, hparse, heq⟩ := Option.map_eq_some_iff.mp hread
  cases heq
  obtain ⟨hkey, hrv⟩ := hstored.parsed hparse
  exact ⟨hkey, (congrArg revisionOf hrv).trans (revisionOf_toString rev)⟩

/-! ### The feed -/

/-- The cache once the buffered relist is committed. -/
def ConfigWatcher.pending (w : ConfigWatcher) : ConfigCache := (w.relist.getD []).foldl ConfigCache.update w.cache

/-- The `metadata.name` selector of `Watcher::run`, in its namespace. -/
def selectsName (namespaceName configName : String) (key : Key) (_ : DynamicObject) : Bool :=
  key = ⟨namespaceName, configName⟩

/-- The API server, the stream, and the watcher. -/
structure CacheFeed where
  store : Etcd
  pos : Position Key
  watcher : ConfigWatcher

def CacheFeed.start (s : Etcd) : CacheFeed := ⟨s, .lost, .start⟩

/-- A delivery on the watcher; the one that is told nothing stays. -/
def ConfigWatcher.told (w : ConfigWatcher) (now : Instant) :
    Option (WatchEvent DynamicObject) → Option ConfigWatcher
  | some event => w.step (.event event now)
  | none => some w

/-- What the stream and the watcher do by themselves, as long as the stream is not lost. -/
inductive CacheFeed.Told (sel : Key → DynamicObject → Bool) : CacheFeed → CacheFeed → Prop
  | told {x : CacheFeed} {event : Option (WatchEvent DynamicObject)} {pos' : Position Key} {w' : ConfigWatcher}
      (now : Instant) : Delivers x.store sel x.pos event pos' → x.watcher.told now event = some w' →
      Told sel x ⟨x.store, pos', w'⟩

inductive CacheFeed.Step (sel : Key → DynamicObject → Bool) : CacheFeed → CacheFeed → Prop
  | written {x : CacheFeed} {s' : Etcd} : x.store.Written s' → Step sel x { x with store := s' }
  | told {x x' : CacheFeed} : x.Told sel x' → Step sel x x'
  | errored {x : CacheFeed} {now : Instant} {w' : ConfigWatcher} : x.watcher.step (.errored now) = some w' →
      Step sel x ⟨x.store, .lost, w'⟩
  | ended {x : CacheFeed} {now : Instant} {w' : ConfigWatcher} : x.watcher.step (.ended now) = some w' →
      Step sel x ⟨x.store, .lost, w'⟩

/-- What a cache has, but for the clock. -/
def ConfigCache.timeless (cache : ConfigCache) (key : Key) : Option ConfigSnapshot :=
  (cache.get key).map ConfigSnapshot.timeless

/-- The follower that the watcher is. -/
def CacheFeed.follower (x : CacheFeed) : Follower Key DynamicObject ConfigSnapshot where
  store := x.store
  pos := x.pos
  shown := x.watcher.cache.timeless
  staged := x.watcher.pending.timeless

/-- The stored documents are dated, and nothing is buffered while the stream watches. -/
structure CacheFeed.Inv (x : CacheFeed) : Prop where
  dated : x.store.Dated
  idle : ∀ r, x.pos = .watching r → x.watcher.relist = none

theorem timeless_update (cache : ConfigCache) (snap : ConfigSnapshot) :
    (cache.update snap).timeless = Function.update cache.timeless snap.key (some snap.timeless) := by
  funext key
  unfold ConfigCache.timeless
  rw [get_update, Function.update_apply]
  split <;> rfl

theorem timeless_markAllStale (cache : ConfigCache) (now : Instant) :
    (cache.markAllStale now).timeless = fun key => (cache.timeless key).map configReader.mark := by
  funext key
  unfold ConfigCache.timeless ConfigCache.get ConfigCache.markAllStale
  rw [Map.lookup_mapVals]
  cases cache.entries.lookup key <;> rfl

/-- A parsed document is written to a cache as it is read. -/
theorem timeless_parsed (cache : ConfigCache) (now : Instant) {event : WatchEvent DynamicObject}
    {obj : DynamicObject} (hevent : event.applied = some obj) :
    ((parseConfigObject now obj).toList.foldl ConfigCache.update cache).timeless =
      configReader.absorb cache.timeless (some event) := by
  rw [Reader.absorb_applied hevent]
  have hread : configReader.read obj =
      ((parseConfigObject now obj).map ConfigSnapshot.timeless).map fun snap => (snap.key, snap) := by
    rw [parseConfigObject_timeless]
    rfl
  rw [hread]
  cases parseConfigObject now obj with
  | none => rfl
  | some snap => exact timeless_update cache snap

/-- A call of konfig that is answered, with what others do before. -/
theorem CacheFeed.answered {sel : Key → DynamicObject → Bool} {x : CacheFeed} {s' : Etcd} {o : KubeOp} {r : o.Resp}
    (h : Etcd.Answer x.store o r s') : Relation.ReflTransGen (CacheFeed.Step sel) x { x with store := s' } :=
  h.written.lift (fun s => { x with store := s }) fun _ _ hw => .written hw

/-! ### One event -/

namespace ConfigWatcher

variable {w w' : ConfigWatcher} {event : WatchEvent DynamicObject} {now : Instant}

theorem pending_idle (h : w.relist = none) : w.pending = w.cache := by
  rw [pending, h]
  rfl

/-- What an event leaves in the buffer and in the cache. -/
theorem event_cases (hstep : w.step (.event event now) = some w') :
    w'.relist = (routeConfigEvent now event w.relist (decide (0 < w.attempt)) w.cache).1 ∧
      w'.cache = (routeConfigEvent now event w.relist (decide (0 < w.attempt)) w.cache).2 := by
  cases hstep
  exact ⟨rfl, rfl⟩

/-- Only `Init` opens a buffer, and `InitDone` closes it. -/
theorem relist_event (hstep : w.step (.event event now) = some w') :
    (event = .initDone → w'.relist = none) ∧ (event ≠ .init → w.relist = none → w'.relist = none) := by
  obtain ⟨hrelist, -⟩ := event_cases hstep
  rw [hrelist, routeConfigEvent]
  refine ⟨fun hdone => ?_, fun hinit hnone => ?_⟩
  · subst hdone
    cases w.relist with
    | some buf => rfl
    | none => cases decide (0 < w.attempt) <;> rfl
  · rw [hnone]
    cases event with
    | init => exact absurd rfl hinit
    | apply obj | delete obj | initApply obj | initDone => cases decide (0 < w.attempt) <;> rfl

/-- **An event is written to what is pending**, buffered or not; a cache that is not all that is
pending is the cache before it. -/
theorem pending_event (hstep : w.step (.event event now) = some w')
    (hlive : ∀ obj, event = .apply obj → w.relist = none) :
    w'.pending.timeless = configReader.absorb w.pending.timeless (some event) ∧
      (w'.relist = none ∨ w'.cache = w.cache) := by
  obtain ⟨hrelist, hcache⟩ := event_cases hstep
  rw [routeConfigEvent_cache] at hcache
  rw [pending, pending, hrelist, hcache]
  cases hbuf : w.relist with
  | none =>
    cases event with
    | apply obj | initApply obj =>
      have hparsed := timeless_parsed w.cache now (rfl : (WatchEvent.apply obj).applied = some obj)
      cases decide (0 < w.attempt) <;> exact ⟨hparsed, .inl rfl⟩
    | init => cases decide (0 < w.attempt) <;> exact ⟨rfl, .inr rfl⟩
    | delete obj | initDone => cases decide (0 < w.attempt) <;> exact ⟨rfl, .inl rfl⟩
  | some buf =>
    cases event with
    | apply obj => cases (hlive obj rfl).symm.trans hbuf
    | initApply obj =>
      have hparsed := timeless_parsed (buf.foldl ConfigCache.update w.cache) now
        (rfl : (WatchEvent.initApply obj).applied = some obj)
      have hbuffer : (routeConfigEvent now (.initApply obj) (some buf) (decide (0 < w.attempt)) w.cache).1 =
          some (buf ++ (parseConfigObject now obj).toList) := by
        rw [routeConfigEvent, routeRelistEvent]
        cases parseConfigObject now obj with
        | none => rw [Option.toList_none, List.append_nil]
        | some snap => rfl
      refine ⟨?_, .inr rfl⟩
      rw [hbuffer, Option.getD_some, List.foldl_append]
      exact hparsed
    | initDone => exact ⟨rfl, .inl rfl⟩
    | delete obj | init => exact ⟨rfl, .inr rfl⟩

end ConfigWatcher

/-! ### The feed is a follower -/

variable {sel : Key → DynamicObject → Bool} {x x' : CacheFeed}

/-- The loss of the stream is one to the follower. -/
theorem CacheFeed.follows_loss (now : Instant) (attempt : Nat) :
    x.follower.Step configReader sel (CacheFeed.follower ⟨x.store, .lost, x.watcher.lose now attempt⟩) := by
  have hcache : (x.watcher.lose now attempt).cache.timeless =
      fun key => (x.follower.shown key).map configReader.mark := timeless_markAllStale x.watcher.cache now
  have hloss : x.follower.Step configReader sel ⟨x.store, .lost,
      (x.watcher.lose now attempt).cache.timeless, (x.watcher.lose now attempt).cache.timeless⟩ := by
    rw [hcache]
    exact .loses
  exact hloss

/-- What is told to the watcher is told to the follower. -/
theorem CacheFeed.Told.follows (h : x.Inv) (htold : x.Told sel x') :
    x'.Inv ∧ x.follower.Step configReader sel x'.follower := by
  obtain ⟨s, pos, w⟩ := x
  cases htold with
  | @told event pos' w' now hdel htold =>
    cases event with
    | none =>
      cases htold
      cases hdel with
      | @list left hleft =>
        have hlist : Delivers s sel .begun none (.listing s.rev left) := .list hleft
        have hpos : ∀ r, Position.listing s.rev left ≠ .watching r := fun _ heq => by cases heq
        have hstages : Follower.Step configReader sel ⟨s, .begun, w.cache.timeless, w.pending.timeless⟩
            ⟨s, .listing s.rev left, w.cache.timeless, configReader.absorb w.pending.timeless none⟩ :=
          .stages hlist hpos
        exact ⟨⟨h.dated, fun r heq => absurd heq (hpos r)⟩, hstages⟩
      | @skip r hr hsame =>
        have hidle : w.relist = none := h.idle r rfl
        have hskip : Delivers s sel (.watching r) none (.watching (r + 1)) := .skip hr hsame
        refine ⟨⟨h.dated, fun _ _ => hidle⟩, ?_⟩
        unfold CacheFeed.follower
        rw [ConfigWatcher.pending_idle hidle]
        have hshows : Follower.Step configReader sel ⟨s, .watching r, w.cache.timeless, w.cache.timeless⟩
            ⟨s, .watching (r + 1), configReader.absorb w.cache.timeless none,
              configReader.absorb w.cache.timeless none⟩ := .shows hskip
        exact hshows
    | some event =>
      obtain ⟨hdone, hnone⟩ := ConfigWatcher.relist_event htold
      have hlive : ∀ obj, event = .apply obj → w.relist = none := by
        rintro obj rfl
        cases hdel with
        | apply => exact h.idle _ rfl
      have hidle : ∀ r, pos' = .watching r → w'.relist = none := by
        rintro r rfl
        cases hdel with
        | initDone => exact hdone rfl
        | apply | delete => exact hnone (fun heq => by cases heq) (h.idle _ rfl)
      obtain ⟨hpending, hcache⟩ := ConfigWatcher.pending_event htold hlive
      refine ⟨⟨h.dated, hidle⟩, ?_⟩
      unfold CacheFeed.follower
      rw [hpending]
      by_cases hrelist : w'.relist = none
      · rw [← ConfigWatcher.pending_idle hrelist, hpending]
        exact .shows hdel
      · rw [hcache.resolve_left hrelist]
        exact .stages hdel fun r heq => hrelist (hidle r heq)

/-- **A step of the feed is a step of the follower.** -/
theorem CacheFeed.follows (h : x.Inv) (hstep : x.Step sel x') :
    x'.Inv ∧ x.follower.Step configReader sel x'.follower := by
  cases hstep with
  | @written s' hw =>
    obtain ⟨hext, hdated⟩ := h.dated.written hw
    exact ⟨⟨hdated, h.idle⟩, .stores hext (configReader_ordered hdated)⟩
  | errored hlost =>
    cases hlost
    exact ⟨⟨h.dated, fun _ hpos => by cases hpos⟩, follows_loss _ _⟩
  | ended hlost =>
    cases hlost
    exact ⟨⟨h.dated, fun _ hpos => by cases hpos⟩, follows_loss _ _⟩
  | told htold => exact htold.follows h

/-- At the start nothing is cached. -/
theorem CacheFeed.inv_start (sel : Key → DynamicObject → Bool) {s : Etcd} (hs : s.Dated) :
    (CacheFeed.start s).Inv ∧ (CacheFeed.start s).follower.Inv configReader sel := by
  have hempty : ConfigCache.empty.timeless = fun _ => none := by
    funext key
    have hget : ConfigCache.empty.get key = none := AList.lookup_empty key
    rw [ConfigCache.timeless, hget]
    rfl
  have hfollower : (CacheFeed.start s).follower = ⟨s, .lost, fun _ => none, fun _ => none⟩ := by
    rw [← hempty]
    rfl
  refine ⟨⟨hs, fun _ heq => by cases heq⟩, ?_⟩
  rw [hfollower]
  exact Follower.inv_start (configReader_ordered hs)

theorem CacheFeed.follows_run (h : x.Inv) (hrun : Relation.ReflTransGen (CacheFeed.Step sel) x x') :
    x'.Inv ∧ Relation.ReflTransGen (Follower.Step configReader sel) x.follower x'.follower := by
  induction hrun with
  | refl => exact ⟨h, .refl⟩
  | tail _ hstep ih =>
    obtain ⟨hinv, hfollows⟩ := CacheFeed.follows ih.1 hstep
    exact ⟨hinv, ih.2.tail hfollows⟩

/-- Whatever the stream can deliver, the watcher takes. -/
theorem CacheFeed.told_of_next {pos' : Position Key} (h : Position.Next x.store sel x.pos pos') :
    ∃ x', x.Told sel x' := by
  obtain ⟨event, hdel⟩ := h
  cases event with
  | none => exact ⟨_, .told 0 hdel rfl⟩
  | some event => exact ⟨_, .told 0 hdel rfl⟩

theorem CacheFeed.store_of_told (h : Relation.ReflTransGen (CacheFeed.Told sel) x x') : x'.store = x.store := by
  induction h with
  | refl => rfl
  | tail _ htold ih =>
    cases htold with
    | told _ _ _ => exact ih

/-- The stream ends its telling as it does without the watcher. -/
theorem CacheFeed.acc_told {s : Etcd} {pos : Position Key} (h : Acc (fun b a => Position.Next s sel a b) pos) :
    ∀ w, Acc (fun b a => CacheFeed.Told sel a b) ⟨s, pos, w⟩ := by
  induction h with
  | intro pos _ ih =>
    intro w
    refine .intro _ fun y htold => ?_
    cases htold with
    | told _ hdel _ => exact ih _ ⟨_, hdel⟩ _

/-- The stream watches the last revision of a store. -/
def CacheFeed.At (s : Etcd) (x : CacheFeed) : Prop := x.store = s ∧ x.pos = .watching s.rev

/-- **A stream that is left alone settles** on the last revision. -/
theorem CacheFeed.settles (h : x.Inv) (hf : x.follower.Inv configReader sel) :
    Settles (CacheFeed.Told sel) (CacheFeed.At x.store) x := by
  refine .of_acc (CacheFeed.acc_told (Position.acc_next x.store sel x.pos) x.watcher) fun y htold => ?_
  obtain ⟨hinv, hfollows⟩ := CacheFeed.follows_run h (htold.lift id fun _ _ => CacheFeed.Step.told)
  have hstore := CacheFeed.store_of_told htold
  rcases (hf.run hfollows).1.told.next hinv.dated.sequential with hpos | ⟨pos', hnext⟩
  · exact .inl ⟨hstore, hpos.trans (congrArg (fun s : Etcd => Position.watching s.rev) hstore)⟩
  · exact .inr (CacheFeed.told_of_next hnext)

/-! ### What is read -/

theorem parseConfigObject_at (now : Instant) (obj : DynamicObject) :
    parseConfigObject now obj = (parseConfigObject 0 obj).map fun snap => { snap with loadedAt := now } := by
  unfold parseConfigObject
  cases obj.data.get "spec" with
  | none => rfl
  | some specValue =>
    dsimp only [Option.bind_eq_bind, Option.bind_some]
    cases ConfigSpec.fromValue specValue with
    | none => rfl
    | some spec => rfl

/-- A follower's reading of a config is a document that was stored. -/
theorem readBy_config {s : Etcd} {bound : ℕ} {key : Key} {got : ConfigSnapshot}
    (h : configReader.ReadBy s sel bound key got.timeless) :
    ∃ n ≤ bound, ∃ obj, s.selected sel n key = some obj ∧
      parseConfigObject got.loadedAt obj = some { got with staleSince := none } := by
  obtain ⟨n, hn, obj, snap, hobj, hread, hplain⟩ := h
  obtain ⟨parsed, hparse, heq⟩ := Option.map_eq_some_iff.mp hread
  obtain rfl : parsed = snap := congrArg Prod.snd heq
  refine ⟨n, hn, obj, hobj, ?_⟩
  rw [parseConfigObject_at, hparse, Option.map_some]
  have hfresh := staleSince_parseConfigObject hparse
  have hsame : { parsed with staleSince := none, loadedAt := got.loadedAt } =
      { got with staleSince := none } :=
    congrArg (fun snap : ConfigSnapshot => { snap with loadedAt := got.loadedAt }) hplain
  rw [← hsame, ← hfresh]

/-- What can be read of the last revision that was told is what `Get` finds, and is not marked. -/
theorem CacheFeed.current {r : ℕ} {key : Key} {obj : DynamicObject} {snap : ConfigSnapshot} {now : Instant}
    (h : x.Inv) (hf : x.follower.Inv configReader sel) (hpos : x.pos = .watching r)
    (hobj : x.store.selected sel r key = some obj) (hparse : parseConfigObject now obj = some snap) :
    ∃ got, x.watcher.cache.get key = some got ∧ got.staleSince = none ∧ got.unloaded = snap.unloaded := by
  have htimeless : parseConfigObject 0 obj = some snap.timeless := by
    rw [← parseConfigObject_timeless now, hparse]
    rfl
  obtain ⟨m, -, hstored, -⟩ := h.dated.stored r key obj (Revisions.selected_eq_some.mp hobj).1
  have hread : configReader.read obj = some (key, snap.timeless) := by
    rw [← (hstored.parsed htimeless).1]
    exact congrArg (Option.map fun snap : ConfigSnapshot => (snap.key, snap)) htimeless
  obtain ⟨got, hgot, hsame⟩ := Option.map_eq_some_iff.mp (hf.current hpos hobj hread)
  have hstale : got.staleSince = none := by
    have hmark := congrArg ConfigSnapshot.staleSince hsame
    rw [show snap.timeless.staleSince = none by
      rw [ConfigSnapshot.timeless, staleSince_parseConfigObject hparse, Option.map_none]] at hmark
    exact Option.map_eq_none_iff.mp hmark
  refine ⟨got, hgot, hstale, ?_⟩
  unfold ConfigSnapshot.timeless at hsame
  rw [hstale, staleSince_parseConfigObject hparse] at hsame
  unfold ConfigSnapshot.unloaded
  rw [hstale, staleSince_parseConfigObject hparse]
  exact hsame

/-- Whatever is cached was stored, under the resource version that it shows. -/
theorem CacheFeed.cached_stored {key : Key} {got : ConfigSnapshot} (h : x.Inv)
    (hf : x.follower.Inv configReader sel) (hgot : x.watcher.cache.get key = some got) :
    (∃ n ≤ x.store.rev, ∃ obj, x.store.selected sel n key = some obj ∧
      parseConfigObject got.loadedAt obj = some { got with staleSince := none }) ∧
    got.resourceVersion = toString (revisionOf got.resourceVersion) := by
  have hshown := hf.shown key got.timeless (congrArg (Option.map ConfigSnapshot.timeless) hgot)
  obtain ⟨n, hn, obj, hobj, hparse⟩ := readBy_config hshown
  refine ⟨⟨n, hn.trans hf.told.reached, obj, hobj, hparse⟩, ?_⟩
  obtain ⟨m, -, hstored, -⟩ := h.dated.stored n key obj (Revisions.selected_eq_some.mp hobj).1
  have hrv : got.resourceVersion = toString m := (hstored.parsed hparse).2
  rw [hrv, revisionOf_toString]

/-- **The config cache follows the API server.**  While the stream watches, every config of the
last revision that it has told is served as it is and not marked stale.  Whatever is served was
stored, and no later answer is older.  From any state, however a stream that is not lost goes on
while nobody writes, it comes to an end, and that is at the last revision. -/
theorem cache_follows_store {s : Etcd} (hs : s.Dated)
    (hrun : Relation.ReflTransGen (CacheFeed.Step sel) (.start s) x) :
    (∀ r key obj snap now, x.pos = .watching r → x.store.selected sel r key = some obj →
      parseConfigObject now obj = some snap →
      ∃ got, x.watcher.cache.get key = some got ∧ got.staleSince = none ∧ got.unloaded = snap.unloaded) ∧
    (∀ key got, x.watcher.cache.get key = some got →
      (∃ n ≤ x.store.rev, ∃ obj, x.store.selected sel n key = some obj ∧
        parseConfigObject got.loadedAt obj = some { got with staleSince := none }) ∧
      ∀ later, Relation.ReflTransGen (CacheFeed.Step sel) x later →
        ∃ got', later.watcher.cache.get key = some got' ∧
          ∃ n n' : ℕ, got.resourceVersion = toString n ∧ got'.resourceVersion = toString n' ∧ n ≤ n') ∧
    Settles (CacheFeed.Told sel) (CacheFeed.At x.store) x := by
  obtain ⟨hstart, hfstart⟩ := CacheFeed.inv_start sel hs
  obtain ⟨hinv, hfollows⟩ := CacheFeed.follows_run hstart hrun
  have hf := (hfstart.run hfollows).1
  refine ⟨fun r key obj snap now hpos hobj hparse => CacheFeed.current hinv hf hpos hobj hparse,
    fun key got hgot => ⟨(CacheFeed.cached_stored hinv hf hgot).1, fun later hlater => ?_⟩,
    CacheFeed.settles hinv hf⟩
  obtain ⟨hinv', hfollows'⟩ := CacheFeed.follows_run hinv hlater
  obtain ⟨hf', hbefore⟩ := hf.run hfollows'
  obtain ⟨shown', hshown', hrank⟩ := hbefore key got.timeless (congrArg (Option.map _) hgot)
  obtain ⟨got', hgot', rfl⟩ := Option.map_eq_some_iff.mp hshown'
  have hrv := (CacheFeed.cached_stored hinv hf hgot).2
  have hrv' := (CacheFeed.cached_stored hinv' hf' hgot').2
  exact ⟨got', hgot', _, _, hrv, hrv', hrank⟩

/-- `trading/limits` is stored, and the stream tells all. -/
theorem cache_follows_limits : ∃ x got,
    Relation.ReflTransGen (CacheFeed.Step (selectsName "trading" "limits")) (.start noConfigs) x ∧
      x.pos = .watching 1 ∧ x.watcher.cache.get limitsKey = some got ∧ got.staleSince = none ∧
      got.schemaVersion = 5 := by
  have hdated : noConfigs.Dated := dated_empty _
  have hanswer : Etcd.Answer noConfigs (.patch limitsKey (patchBody limitsKey ⟨5, defaultContent⟩ none))
      (.ok (limitsAt 1 ⟨5, defaultContent⟩)) (noConfigs.write limitsKey (some (limitsAt 1 ⟨5, defaultContent⟩))) :=
    .patched (limitsAt_applied 1 ⟨5, defaultContent⟩)
  have hfirst : Relation.ReflTransGen (CacheFeed.Step (selectsName "trading" "limits")) (.start noConfigs)
      ⟨noConfigs.write limitsKey (some (limitsAt 1 ⟨5, defaultContent⟩)), .lost, .start⟩ :=
    CacheFeed.answered hanswer
  obtain ⟨-, -, hsettles⟩ := cache_follows_store hdated hfirst
  obtain ⟨x, htold, hstore, hpos⟩ := hsettles.comes
  have hrun := hfirst.trans (htold.lift id fun _ _ => CacheFeed.Step.told)
  obtain ⟨hcurrent, -⟩ := cache_follows_store hdated hrun
  have hat : x.store.selected (selectsName "trading" "limits") 1 limitsKey =
      some (limitsAt 1 ⟨5, defaultContent⟩) := by
    rw [hstore]
    rfl
  obtain ⟨got, hgot, hfresh, hsame⟩ := hcurrent 1 limitsKey _ _ 0 hpos hat rfl
  exact ⟨x, got, hrun, hpos, hgot, hfresh, congrArg ConfigSnapshot.schemaVersion hsame⟩

end Konfig
