import Konfig.Secrets.Watch
import Konfig.Watcher

/-!
# The secret watchers over one cache

`SecretWatcher::spawn_all`: one loop for each namespace, all over one `SecretCache`, in any
interleaving.  Each loop updates the entries of its own namespace, and marks every entry
of the cache when its own connection is lost.

* `SecretFleet`: the loops as one machine, with the journal of what happened to the cache.
* `SecretFleet.view_run`: what one loop sees is a run of `SecretWatcher`.
* `SecretFleet.Inv.stale_last`: an entry shows the last loss of any loop since it was written.
* `secret_staleness_iff`: when it is stale only for losses of its own namespace's loop.
-/

namespace Konfig

open Lib

/-! ### The fleet -/

/-- What one loop keeps to itself. -/
structure SecretLoop where
  relist : Option (List SecretSnapshot)
  batchRelist : Bool
  pending : Option SecretEvent
  sent : List SecretEvent
  applied : List SecretSnapshot

def SecretLoop.start : SecretLoop :=
  { relist := none, batchRelist := false, pending := none, sent := [], applied := [] }

/-- What can happen to one loop. -/
inductive SecretLoopLabel
  | event (event : WatchEvent Secret) (now : Instant)
  | send
  | disconnect (now : Instant)

def SecretLoopLabel.toWatcher : SecretLoopLabel → SecretWatcherLabel
  | .event e now => .event e now
  | .send => .send
  | .disconnect now => .disconnect now

/-- A loop with the cache it writes. -/
def SecretLoop.over (loop : SecretLoop) (cache : SecretCache) : SecretWatcher :=
  { cache, relist := loop.relist, batchRelist := loop.batchRelist, pending := loop.pending,
    sent := loop.sent, applied := loop.applied }

/-- What a watcher keeps to itself. -/
def SecretWatcher.loop (w : SecretWatcher) : SecretLoop :=
  { relist := w.relist, batchRelist := w.batchRelist, pending := w.pending, sent := w.sent,
    applied := w.applied }

/-- The operations on the cache that a step of the loop of `ns` amounts to. -/
def SecretWatcher.ops (ns : String) (w : SecretWatcher) :
    SecretLoopLabel → List (FeedOp Key SecretSnapshot String Instant)
  | .event event now =>
    (relistWrites (parseSecret now · ns) w.relist event).map fun snap => .write snap.key snap
  | .send => []
  | .disconnect now => [.lose ns now]

/-- The loops and their cache.  `journal` is a history variable: what happened to the
cache so far. -/
structure SecretFleet where
  cache : SecretCache
  loops : Nat → SecretLoop
  journal : List (FeedOp Key SecretSnapshot String Instant)

def SecretFleet.start : SecretFleet := { cache := ∅, loops := fun _ => .start, journal := [] }

/-- A loop as it sees the cache. -/
def SecretFleet.view (f : SecretFleet) (i : Nat) : SecretWatcher := (f.loops i).over f.cache

/-- The loop at a position of the list of namespaces takes a step. -/
def SecretFleet.step (namespaces : List String) (f : SecretFleet) :
    Nat × SecretLoopLabel → Option SecretFleet
  | (i, l) =>
    match namespaces[i]? with
    | none => none
    | some ns =>
      match (f.view i).step ns l.toWatcher with
      | none => none
      | some w =>
        some {
          cache := w.cache
          loops := Function.update f.loops i w.loop
          journal := f.journal ++ (f.view i).ops ns l }

/-! ### What a step does to the cache -/

/-- One operation on the cache. -/
def SecretCache.apply : SecretCache → FeedOp Key SecretSnapshot String Instant → SecretCache :=
  FeedOp.applyTo fun now snap => snap.setStale now

theorem foldl_apply_writes (snaps : List SecretSnapshot) : ∀ cache : SecretCache,
    (snaps.map fun snap => (.write snap.key snap : FeedOp Key SecretSnapshot String Instant)).foldl
      SecretCache.apply cache = cache.applyBatch snaps := by
  intro cache
  rw [List.foldl_map]
  rfl

/-- **A step does to the cache what its operations do.** -/
theorem SecretWatcher.cache_of_step {ns : String} {w w' : SecretWatcher} {l : SecretLoopLabel}
    (h : w.step ns l.toWatcher = some w') : w'.cache = (w.ops ns l).foldl SecretCache.apply w.cache := by
  cases l with
  | send =>
    simp only [SecretLoopLabel.toWatcher, SecretWatcher.step] at h
    split at h
    · cases h
    · cases h
      rfl
  | disconnect now =>
    simp only [SecretLoopLabel.toWatcher, SecretWatcher.step] at h
    split at h
    · cases h
      rfl
    · cases h
  | event event now =>
    simp only [SecretLoopLabel.toWatcher, SecretWatcher.step] at h
    split at h
    · cases h
      rw [SecretWatcher.ops, foldl_apply_writes]
      obtain ⟨cache, relist, batchRelist, pending, sent, applied⟩ := w
      cases relist with
      | some buf => cases event <;> rfl
      | none => cases batchRelist <;> cases event <;> rfl
    · cases h

/-- What a loop buffers was parsed for its own namespace, and is fresh. -/
def SecretLoop.Buffered (ns : String) (loop : SecretLoop) : Prop :=
  ∀ buf ∈ loop.relist, ∀ snap ∈ buf, snap.ns = ns ∧ snap.staleSince = none

theorem parseSecret_fresh {now : Instant} {secret : Secret} {ns : String} :
    ∀ snap ∈ parseSecret now secret ns, snap.ns = ns ∧ snap.staleSince = none := by
  intro snap h
  cases h
  exact ⟨rfl, rfl⟩

theorem SecretLoop.Buffered.congr {ns : String} {a b : SecretLoop} (h : a.Buffered ns)
    (he : b.relist = a.relist) : b.Buffered ns := by
  unfold SecretLoop.Buffered
  rw [he]
  exact h

/-- A buffer grows by what it parses. -/
theorem buffered_routeSecretEvent {ns : String} {w : SecretWatcher} (h : w.loop.Buffered ns)
    (now : Instant) (event : WatchEvent Secret) : (routeSecretEvent ns now event w).loop.Buffered ns := by
  have hhandle : ∀ e, (handleSecretEvent ns now e w).loop.Buffered ns := by
    intro e
    refine h.congr ?_
    cases e <;> rfl
  unfold routeSecretEvent
  split
  · rename_i buf hrelist
    split
    · split
      · rename_i snap hsnap
        intro buf' hbuf' s hs
        cases hbuf'
        rw [List.mem_append, List.mem_singleton] at hs
        rcases hs with hs | rfl
        · exact h buf hrelist s hs
        · exact parseSecret_fresh s hsnap
      · exact h
    · intro buf' hbuf'
      cases hbuf'
    · exact hhandle _
  · split
    · intro buf' hbuf' s hs
      cases hbuf'
      cases hs
    · exact hhandle _

theorem SecretLoop.Buffered.step {ns : String} {w w' : SecretWatcher} {l : SecretLoopLabel}
    (h : w.loop.Buffered ns) (hstep : w.step ns l.toWatcher = some w') : w'.loop.Buffered ns := by
  cases l with
  | send =>
    simp only [SecretLoopLabel.toWatcher, SecretWatcher.step] at hstep
    split at hstep
    · cases hstep
    · cases hstep
      exact h.congr rfl
  | disconnect now =>
    simp only [SecretLoopLabel.toWatcher, SecretWatcher.step] at hstep
    split at hstep
    · cases hstep
      intro buf hbuf
      cases hbuf
    · cases hstep
  | event e now =>
    simp only [SecretLoopLabel.toWatcher, SecretWatcher.step] at hstep
    split at hstep
    · cases hstep
      exact buffered_routeSecretEvent h now e
    · cases hstep

/-- What a step writes was parsed for the loop's namespace, and is fresh. -/
theorem SecretLoop.Buffered.ops {ns : String} {w : SecretWatcher} (h : w.loop.Buffered ns)
    {l : SecretLoopLabel} {key : Key} {snap : SecretSnapshot} (hop : .write key snap ∈ w.ops ns l) :
    key = snap.key ∧ snap.ns = ns ∧ snap.staleSince = none := by
  cases l with
  | send => cases hop
  | disconnect now =>
    rw [SecretWatcher.ops, List.mem_singleton] at hop
    cases hop
  | event e now =>
    obtain ⟨s, hs, he⟩ := List.mem_map.mp hop
    cases he
    exact ⟨rfl, relistWrites_forall (fun _ => parseSecret_fresh) h e snap hs⟩

/-! ### The invariant -/

/-- What a step of the fleet is. -/
theorem SecretFleet.step_some {namespaces : List String} {f f' : SecretFleet} {i : Nat}
    {l : SecretLoopLabel} (h : f.step namespaces (i, l) = some f') :
    ∃ ns w, namespaces[i]? = some ns ∧ (f.view i).step ns l.toWatcher = some w ∧
      f' = { cache := w.cache
             loops := Function.update f.loops i w.loop
             journal := f.journal ++ (f.view i).ops ns l } := by
  simp only [SecretFleet.step] at h
  split at h
  · cases h
  · rename_i ns hns
    split at h
    · cases h
    · rename_i w hw
      cases h
      exact ⟨ns, w, hns, hw, rfl⟩

/-- The cache is what the journal makes of it, and nothing stale is written or buffered. -/
structure SecretFleet.Inv (namespaces : List String) (f : SecretFleet) : Prop where
  follows : ∀ key, f.cache.lookup key =
    entryAfter (fun now snap => snap.setStale now) key none f.journal
  fresh : FreshWrites SecretSnapshot.staleSince f.journal
  buffered : ∀ i ns, namespaces[i]? = some ns → (f.loops i).Buffered ns

theorem SecretFleet.inv_start (namespaces : List String) : SecretFleet.start.Inv namespaces where
  follows key := AList.lookup_empty key
  fresh _ _ h := by cases h
  buffered _ _ _ _ h := by cases h

theorem SecretFleet.Inv.step {namespaces : List String} {f f' : SecretFleet} {p : Nat × SecretLoopLabel}
    (h : f.Inv namespaces) (hstep : f.step namespaces p = some f') : f'.Inv namespaces := by
  obtain ⟨i, l⟩ := p
  obtain ⟨ns, w, hns, hw, rfl⟩ := SecretFleet.step_some hstep
  have hbuf : (f.view i).loop.Buffered ns := h.buffered i ns hns
  constructor
  · intro key
    change w.cache.lookup key = _
    rw [SecretWatcher.cache_of_step hw, SecretCache.apply, lookup_foldl_applyTo, entryAfter_append,
      ← h.follows]
    rfl
  · intro key snap hmem
    rcases List.mem_append.mp hmem with hmem | hmem
    · exact h.fresh key snap hmem
    · exact (hbuf.ops hmem).2.2
  · intro j ns' hj
    by_cases hji : j = i
    · subst hji
      obtain rfl : ns = ns' := Option.some.inj (hns.symm.trans hj)
      simp only [Function.update_self]
      exact hbuf.step hw
    · simp only [Function.update_of_ne hji]
      exact h.buffered j ns' hj

theorem SecretFleet.inv_run {namespaces : List String} {labels : List (Nat × SecretLoopLabel)}
    {f : SecretFleet} (hrun : run (SecretFleet.step namespaces) .start labels = some f) :
    f.Inv namespaces :=
  run_induction (fun _ f => f.Inv namespaces) (SecretFleet.inv_start namespaces)
    (fun _ _ _ _ _ h hstep => h.step hstep) labels f hrun

/-- **An entry shows the last loss of any loop since it was written.** -/
theorem SecretFleet.Inv.stale_last {namespaces : List String} {f : SecretFleet} (h : f.Inv namespaces)
    {key : Key} {snap : SecretSnapshot} (hsnap : f.cache.lookup key = some snap) :
    snap.staleSince = (losses (since key f.journal)).getLast? := by
  have hinitial : ∀ v ∈ (none : Option SecretSnapshot), v.staleSince = none := by simp
  rw [h.follows] at hsnap
  refine Lib.stale_last ?_ hinitial h.fresh hsnap
  exact fun _ _ => rfl

/-! ### One loop among the others -/

/-- What an operation of another loop is to a watcher. -/
def foreignLabel : FeedOp Key SecretSnapshot String Instant → SecretWatcherLabel
  | .write _ snap => .foreign snap
  | .lose _ now => .foreignStale now

theorem run_foreign {ns : String} (loop : SecretLoop) :
    ∀ (ops : List (FeedOp Key SecretSnapshot String Instant)) (cache : SecretCache),
      (∀ k snap, .write k snap ∈ ops → k = snap.key ∧ snap.ns ≠ ns) →
        run (SecretWatcher.step ns) (loop.over cache) (ops.map foreignLabel) =
          some (loop.over (ops.foldl SecretCache.apply cache)) := by
  intro ops
  induction ops with
  | nil => intro cache _; rfl
  | cons op ops ih =>
    intro cache h
    have hstep : (loop.over cache).step ns (foreignLabel op) = some (loop.over (cache.apply op)) := by
      cases op with
      | lose feed now => rfl
      | write k snap =>
        obtain ⟨rfl, hns⟩ := h k snap List.mem_cons_self
        exact if_neg hns
    rw [List.map_cons, run_cons, hstep, Option.bind_some, List.foldl_cons]
    exact ih (cache.apply op) fun k snap hm => h k snap (List.mem_cons_of_mem _ hm)

theorem SecretFleet.view_step {namespaces : List String} (hnodup : namespaces.Nodup) {f f' : SecretFleet}
    {p : Nat × SecretLoopLabel} (h : f.Inv namespaces) (hstep : f.step namespaces p = some f') {i : Nat}
    {ns : String} (hi : namespaces[i]? = some ns) :
    ∃ ls, run (SecretWatcher.step ns) (f.view i) ls = some (f'.view i) := by
  obtain ⟨j, l⟩ := p
  obtain ⟨ns', w, hj, hw, rfl⟩ := SecretFleet.step_some hstep
  by_cases hij : i = j
  · subst hij
    obtain rfl : ns' = ns := Option.some.inj (hj.symm.trans hi)
    refine ⟨[l.toWatcher], ?_⟩
    rw [run_singleton, hw, SecretFleet.view]
    simp only [Function.update_self]
    rfl
  · have hns : ns' ≠ ns := by
      rintro rfl
      exact hij ((List.getElem?_inj (List.getElem?_eq_some_iff.mp hi).1 hnodup).mp (hi.trans hj.symm))
    have hbuf : (f.view j).loop.Buffered ns' := h.buffered j ns' hj
    refine ⟨((f.view j).ops ns' l).map foreignLabel, (run_foreign (f.loops i) _ f.cache ?_).trans ?_⟩
    · intro k snap hm
      obtain ⟨hkey, hsnap, _⟩ := hbuf.ops hm
      rw [hsnap]
      exact ⟨hkey, hns⟩
    · simp only [SecretFleet.view, Function.update_of_ne hij, SecretWatcher.cache_of_step hw]
      rfl

/-- **What one loop sees of a run is a run of its own**, with the other loops as foreign steps. -/
theorem SecretFleet.view_run {namespaces : List String} (hnodup : namespaces.Nodup) {i : Nat} {ns : String}
    (hi : namespaces[i]? = some ns) {labels : List (Nat × SecretLoopLabel)} {f : SecretFleet}
    (hrun : run (SecretFleet.step namespaces) .start labels = some f) :
    ∃ ls, run (SecretWatcher.step ns) (.start ∅) ls = some (f.view i) := by
  refine run_induction (fun _ f => ∃ ls, run (SecretWatcher.step ns) (.start ∅) ls = some (f.view i))
    ⟨[], rfl⟩ ?_ labels f hrun
  rintro as g p g' hg ⟨ls, hls⟩ hstep
  obtain ⟨ls', hls'⟩ := SecretFleet.view_step hnodup (SecretFleet.inv_run hg) hstep hi
  refine ⟨ls ++ ls', ?_⟩
  rw [run_append, hls, Option.bind_some, hls']

/-! ### Staleness -/

/-- A secret is stale iff its own namespace's loop lost its connection since it was written. -/
def SecretFleet.Confined (f : SecretFleet) : Prop :=
  ∀ key snap, f.cache.lookup key = some snap →
    (snap.staleSince.isSome = true ↔ lossesOf key.ns (since key f.journal) ≠ [])

/-- A loop's disconnect leaves the fresh secrets of other namespaces fresh. -/
def SecretFleet.Spares (namespaces : List String) (f : SecretFleet) (i : Nat) (f' : SecretFleet) : Prop :=
  ∀ key snap, f.cache.lookup key = some snap → snap.staleSince = none → namespaces[i]? ≠ some key.ns →
    ∃ snap', f'.cache.lookup key = some snap' ∧ snap'.staleSince = none

/-- A loop's disconnect finds all secrets of other namespaces stale already. -/
def SecretFleet.OthersStale (namespaces : List String) (f : SecretFleet) : Nat × SecretLoopLabel → Prop
  | (i, .disconnect _) => ∀ key snap, f.cache.lookup key = some snap → namespaces[i]? ≠ some key.ns →
      snap.staleSince.isSome = true
  | (_, .event _ _) | (_, .send) => True

instance (f : SecretFleet) : Decidable f.Confined := decidable_of_iff _ Map.forall_lookup_iff.symm

instance (namespaces : List String) (f : SecretFleet) : ∀ p, Decidable (f.OthersStale namespaces p)
  | (_, .disconnect _) => decidable_of_iff _ Map.forall_lookup_iff.symm
  | (_, .event _ _) | (_, .send) => inferInstanceAs (Decidable True)

theorem SecretFleet.confined_start : SecretFleet.start.Confined := by
  intro key snap hsnap
  rw [SecretFleet.start, AList.lookup_empty] at hsnap
  cases hsnap

/-- Writes keep the law: what is written is fresh. -/
theorem SecretFleet.confined_of_writes {namespaces : List String} {f f' : SecretFleet}
    (hinv : f.Inv namespaces) (hinv' : f'.Inv namespaces) (h : f.Confined)
    {ops : List (FeedOp Key SecretSnapshot String Instant)} (honly : OnlyWrites ops)
    (hjournal : f'.journal = f.journal ++ ops) : f'.Confined := by
  intro key snap hsnap
  rw [hinv'.follows, hjournal] at hsnap
  rw [hjournal]
  refine law_of_writes ?_ ?_ (fun shown ops => shown.isSome = true ↔ lossesOf key.ns ops ≠ []) ?_ ?_ honly
    (hjournal ▸ hinv'.fresh) ?_ snap hsnap
  · exact fun _ _ => rfl
  · simp
  · intro ops hops
    rw [hops.lossesOf]
    simp
  · intro shown ops writes hwrites hlaw
    rw [lossesOf_append, hwrites.lossesOf, List.append_nil]
    exact hlaw
  · intro v hv
    rw [← hinv.follows] at hv
    exact h key v hv

/-- A disconnect keeps the law exactly if the other namespaces' secrets are stale already. -/
theorem SecretFleet.confined_of_lose {f f' : SecretFleet} (h : f.Confined) {ns : String} {now : Instant}
    (hcache : f'.cache = f.cache.markAllStale now) (hjournal : f'.journal = f.journal ++ [.lose ns now]) :
    f'.Confined ↔ ∀ key snap, f.cache.lookup key = some snap → ns ≠ key.ns →
      snap.staleSince.isSome = true := by
  have hlookup : ∀ key, f'.cache.lookup key = (f.cache.lookup key).map (·.setStale now) := by
    intro key
    rw [hcache]
    exact Map.lookup_mapVals _ _ _
  have hlosses : ∀ key : Key, lossesOf key.ns (since key f'.journal) =
      lossesOf key.ns (since key f.journal) ++ if ns = key.ns then [now] else [] := by
    intro key
    rw [hjournal, since_snoc_of_not_writes _ rfl, lossesOf_append]
    by_cases hns : ns = key.ns
    · simp [lossesOf, hns]
    · simp [lossesOf, hns]
  refine ⟨fun hlaw key snap hsnap hns => ?_, fun hothers key snap' hsnap' => ?_⟩
  · have hstale := (hlaw key (snap.setStale now) (by rw [hlookup, hsnap, Option.map_some])).mp rfl
    rw [hlosses, if_neg hns, List.append_nil] at hstale
    exact (h key snap hsnap).mpr hstale
  · rw [hlookup, Option.map_eq_some_iff] at hsnap'
    obtain ⟨snap, hsnap, rfl⟩ := hsnap'
    refine ⟨fun _ => ?_, fun _ => rfl⟩
    rw [hlosses]
    by_cases hns : ns = key.ns
    · simp [hns]
    · rw [if_neg hns, List.append_nil]
      exact (h key snap hsnap).mp (hothers key snap hsnap hns)

theorem SecretFleet.step_confined {namespaces : List String} {f f' : SecretFleet}
    {p : Nat × SecretLoopLabel} (hinv : f.Inv namespaces) (h : f.Confined)
    (hstep : f.step namespaces p = some f') : f'.Confined ↔ f.OthersStale namespaces p := by
  have hinv' := hinv.step hstep
  obtain ⟨i, l⟩ := p
  obtain ⟨ns, w, hns, hw, hf'⟩ := SecretFleet.step_some hstep
  have hjournal : f'.journal = f.journal ++ (f.view i).ops ns l := by rw [hf']
  cases l with
  | send =>
    have honly : OnlyWrites ((f.view i).ops ns .send) := by
      intro op hop
      cases hop
    exact ⟨fun _ => trivial, fun _ => SecretFleet.confined_of_writes hinv hinv' h honly hjournal⟩
  | event e now =>
    have honly : OnlyWrites ((f.view i).ops ns (.event e now)) := by
      intro op hop
      obtain ⟨snap, _, rfl⟩ := List.mem_map.mp hop
      exact ⟨_, _, rfl⟩
    exact ⟨fun _ => trivial, fun _ => SecretFleet.confined_of_writes hinv hinv' h honly hjournal⟩
  | disconnect now =>
    have hcache : f'.cache = f.cache.markAllStale now := by
      rw [hf']
      exact SecretWatcher.cache_of_step hw
    rw [SecretFleet.confined_of_lose h hcache hjournal, SecretFleet.OthersStale]
    simp only [hns, ne_eq, Option.some.injEq]

/-- **Staleness is confined to a secret's own watcher** in exactly the runs in which every
disconnect finds the secrets of all other namespaces stale already. -/
theorem secret_staleness_iff (namespaces : List String) {labels : List (Nat × SecretLoopLabel)}
    {f : SecretFleet} (hrun : run (SecretFleet.step namespaces) .start labels = some f) :
    (∀ pre post g, labels = pre ++ post → run (SecretFleet.step namespaces) .start pre = some g →
      g.Confined ∧ ∀ i now rest u, post = (i, .disconnect now) :: rest →
        g.step namespaces (i, .disconnect now) = some u → g.Spares namespaces i u) ↔
      Along (SecretFleet.step namespaces) (fun _ => SecretFleet.OthersStale namespaces) .start labels := by
  have halways := always_iff_along (SecretFleet.OthersStale namespaces) SecretFleet.Confined
    SecretFleet.confined_start
    (fun as s a t hs hlaw ha => SecretFleet.step_confined (SecretFleet.inv_run hs) hlaw ha) labels f hrun
  refine ⟨fun hall => ?_, fun hothers pre post g he hg => ?_⟩
  · exact halways.mp fun pre post g he hg => (hall pre post g he hg).1
  · refine ⟨halways.mpr hothers pre post g he hg, fun i now rest u hpost _ => ?_⟩
    intro key snap hsnap hfresh hns
    have hothersStale : g.OthersStale namespaces (i, .disconnect now) :=
      hothers pre (i, .disconnect now) rest g (by rw [he, hpost]) hg
    have hstale := hothersStale key snap hsnap hns
    rw [hfresh] at hstale
    cases hstale

/-! ### Two namespaces -/

/-- A secret of `trading` is cached, and then loops lose their connections. -/
def tradingThen (lost : List (Nat × SecretLoopLabel)) : List (Nat × SecretLoopLabel) :=
  [(0, .event (.apply { metadata := { name := some "keys", resourceVersion := some "5" }, data := none }) 0),
    (0, .send)] ++ lost

/-- Stale since its own loop lost its connection, the secret stays stale when the loop of `risk`
loses its own. -/
theorem secret_staleness_both : ∃ f,
    run (SecretFleet.step ["trading", "risk"]) .start (tradingThen [(0, .disconnect 10), (1, .disconnect 20)]) =
      some f ∧ f.Confined := by
  obtain ⟨f, hf⟩ := Option.isSome_iff_exists.mp (show (run (SecretFleet.step ["trading", "risk"]) .start
    (tradingThen [(0, .disconnect 10), (1, .disconnect 20)])).isSome = true by decide +kernel)
  have hothers : Along (SecretFleet.step ["trading", "risk"])
      (fun _ => SecretFleet.OthersStale ["trading", "risk"]) .start
      (tradingThen [(0, .disconnect 10), (1, .disconnect 20)]) := by
    decide +kernel
  exact ⟨f, hf, (((secret_staleness_iff ["trading", "risk"] hf).mpr hothers) _ [] f (by simp) hf).1⟩

/-- **An outage of `risk` makes a secret of `trading` stale**, whose own loop is connected. -/
theorem risk_outage_marks_trading : ¬ ∀ namespaces labels f,
    run (SecretFleet.step namespaces) .start labels = some f → f.Confined := by
  intro hall
  obtain ⟨f, hf, hnot⟩ := (Option.any_eq_true _ _).mp
    (show (run (SecretFleet.step ["trading", "risk"]) .start (tradingThen [(1, .disconnect 10)])).any
      (fun f => decide (¬ f.Confined)) = true by decide +kernel)
  exact of_decide_eq_true hnot (hall ["trading", "risk"] (tradingThen [(1, .disconnect 10)]) f hf)

end Konfig
