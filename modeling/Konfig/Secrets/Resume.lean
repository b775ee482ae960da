import Konfig.Secrets.Snapshot

/-!
# A resumed secret stream

With a resume version, `SubscribeSecrets` sends the cached secrets and then starts a raw
watch from that version.  `Subscribe` leaves out the buffered events its snapshot covers;
here nothing compares the two sources, so a change between the resume version and the
cached version comes after the snapshot that has it.

* `SecretHistory`: the changes the API server replays.
* `resumed_forward`: while none of them is older than its cached secret, no client goes
  back.
* `resumed_backward`: otherwise some run delivers the older version last, unless the
  snapshot does not fit into the channel.
* `secrets_resume_iff`: both.
-/

namespace Konfig

open Lib

def SecretEvent.name (e : SecretEvent) : Option String := e.secret.map (·.name)

def SecretEvent.version (e : SecretEvent) : Option Nat := e.secret.bind fun r => parseU64 r.resourceVersion

/-- The version of the secret does not go back from `a` to `b`. -/
def SecretEvent.Forward (a b : SecretEvent) : Prop :=
  a.name = b.name → ∀ v ∈ a.version, ∀ w ∈ b.version, v ≤ w

instance (a b : SecretEvent) : Decidable (a.Forward b) :=
  inferInstanceAs (Decidable (_ → ∀ v ∈ a.version, ∀ w ∈ b.version, v ≤ w))

/-- Each secret's versions never decrease. -/
def NeverBack (events : List SecretEvent) : Prop := events.Pairwise SecretEvent.Forward

/-- What the client has received. -/
def SecretSubscriber.delivered (sub : SecretSubscriber) : List SecretEvent :=
  sub.out.received.filterMap Except.toOption

/-! ### What the API server replays -/

def RawWatchEvent.version (e : RawWatchEvent) : Option Nat :=
  e.secret.bind fun secret => parseU64 (secret.metadata.resourceVersion.getD "")

/-- The changes of the secrets of a namespace, in version order. -/
structure SecretHistory where
  changes : List RawWatchEvent
  ordered : (changes.map RawWatchEvent.version).Pairwise fun a b => ∃ v ∈ a, ∃ w ∈ b, v < w

/-- Every change after a version. -/
def SecretHistory.after (history : SecretHistory) (rv : Nat) : List RawWatchEvent :=
  history.changes.filter fun e => e.version.any fun v => rv < v

/-- The change that a step of the raw watch brings. -/
def SecretLabel.change : SecretLabel → Option RawWatchEvent
  | .sub (.raw event _) => if event.secret.isSome then some event else none
  | _ => none

/-- What the raw watch has brought. -/
def replayed (labels : List SecretLabel) : List RawWatchEvent := labels.filterMap SecretLabel.change

theorem replayed_append (as bs : List SecretLabel) : replayed (as ++ bs) = replayed as ++ replayed bs :=
  List.filterMap_append

theorem replayed_snoc (labels : List SecretLabel) (l : SecretLabel) :
    replayed (labels ++ [l]) = replayed labels ++ l.change.toList := by
  rw [replayed_append]
  cases h : l.change <;> simp [replayed, h]

/-- No change that is replayed is older than what is cached of the same secret. -/
def NoneOlder (content : List SecretSnapshot) (changes : List RawWatchEvent) : Prop :=
  ∀ snap ∈ content, ∀ e ∈ changes, ∀ secret ∈ e.secret, isManaged secret = true →
    secret.metadata.name.getD "" = snap.name →
      ∀ v ∈ parseU64 snap.resourceVersion, ∀ w ∈ e.version, v ≤ w

/-- The type of event a change is delivered as. -/
def RawWatchEvent.type : RawWatchEvent → EventType
  | .deleted _ => .deleted
  | _ => .modified

/-- The event a change is delivered as. -/
def RawWatchEvent.delivers (ns : String) (now : Instant) (e : RawWatchEvent) : Option SecretEvent :=
  e.secret.bind (rawSecretEvent ns now e.type)

theorem delivers_some {ns : String} {now : Instant} {e : RawWatchEvent} {event : SecretEvent}
    (h : e.delivers ns now = some event) : ∃ secret, e.secret = some secret ∧
      isManaged secret = true ∧ event.name = some (secret.metadata.name.getD "") ∧
      event.version = e.version := by
  obtain ⟨secret, hsecret, hraw⟩ := Option.bind_eq_some_iff.mp h
  obtain ⟨snap, hparse, rfl⟩ := Option.map_eq_some_iff.mp hraw
  unfold parseSecretObject at hparse
  split at hparse
  · rename_i hman
    rw [parseSecret, Option.some.injEq] at hparse
    refine ⟨secret, hsecret, hman, ?_, ?_⟩
    · rw [← hparse]
      rfl
    · rw [← hparse, RawWatchEvent.version, hsecret]
      rfl
  · cases hparse

theorem delivers_of_managed (ns : String) (now : Instant) {e : RawWatchEvent} {secret : Secret}
    (hsecret : e.secret = some secret) (hman : isManaged secret = true) :
    ∃ event, e.delivers ns now = some event ∧ event.name = some (secret.metadata.name.getD "") ∧
      event.version = e.version := by
  obtain ⟨event, hevent⟩ : ∃ event, e.delivers ns now = some event := by
    rw [RawWatchEvent.delivers, hsecret, Option.bind_some, rawSecretEvent, parseSecretObject, if_pos hman]
    exact ⟨_, rfl⟩
  obtain ⟨_, hsecret', _, hname, hversion⟩ := delivers_some hevent
  obtain rfl := Option.some.inj (hsecret.symm.trans hsecret')
  exact ⟨event, hevent, hname, hversion⟩

/-- A snapshot has one entry a name. -/
theorem names_distinct {cache : SecretCache} (hkeyed : cache.Keyed SecretSnapshot.key) {order : List Key}
    (horder : order.Perm cache.keys) (ns : String) :
    (cache.allInNamespace order ns).Pairwise fun a b => a.name ≠ b.name := by
  unfold SecretCache.allInNamespace Map.visit
  rw [List.pairwise_filterMap]
  have hnodup : (order.filter fun k => k.ns = ns).Nodup :=
    (horder.nodup_iff.mpr (AList.keys_nodup cache)).filter _
  refine hnodup.imp_of_mem fun {k k'} hk hk' hne a ha b hb hname => hne ?_
  rw [List.mem_filter, decide_eq_true_eq] at hk hk'
  have hka := hkeyed k a ha
  have hkb := hkeyed k' b hb
  have hns : k.ns = k'.ns := hk.2.trans hk'.2.symm
  have hnames : k.name = k'.name := by
    rw [← hka, ← hkb]
    exact hname
  cases k
  cases k'
  simp only at hns hnames
  rw [hns, hnames]

/-! ### No way back -/

/-- What the snapshot has still to send. -/
def SecretSubscriber.toCome (sub : SecretSubscriber) : List SecretEvent :=
  match sub.phase with
  | .snapshotting todo => todo
  | _ => []

/-- What is in the channel, and what the snapshot has still to send. -/
def SecretSubscriber.stream (sub : SecretSubscriber) : List SecretEvent := sub.out.items ++ sub.toCome

/-- A resumed call after `labels`: what it streams comes from the cache or from the raw
watch, and never goes back. -/
structure SecretSubscriber.Resumed (snaps : List SecretSnapshot) (labels : List SecretLabel)
    (sub : SecretSubscriber) : Prop where
  content : sub.content = snaps
  filling : sub.Filling
  busy : sub.phase ≠ .reading ∧ sub.phase ≠ .bridging
  sources : ∀ e ∈ sub.stream,
    (∃ snap ∈ snaps, e.name = some snap.name ∧ e.version = parseU64 snap.resourceVersion) ∨
      ∃ c ∈ replayed labels, e.version = c.version
  forward : NeverBack sub.stream

theorem mem_replayed_snoc {labels : List SecretLabel} {c : RawWatchEvent} (h : c ∈ replayed labels)
    (l : SecretLabel) : c ∈ replayed (labels ++ [l]) := by
  rw [replayed_snoc]
  exact List.mem_append_left _ h

/-- A step that streams nothing new. -/
theorem SecretSubscriber.Resumed.quiet {content : List SecretSnapshot} {labels : List SecretLabel}
    {sub sub' : SecretSubscriber} (hi : sub.Resumed content labels) (l : SecretLabel)
    (hcontent : sub'.content = sub.content) (hfilling : sub'.Filling)
    (hbusy : sub'.phase ≠ .reading ∧ sub'.phase ≠ .bridging) (hstream : sub'.stream.Sublist sub.stream) :
    sub'.Resumed content (labels ++ [l]) where
  content := hcontent.trans hi.content
  filling := hfilling
  busy := hbusy
  sources := fun e he =>
    (hi.sources e (hstream.subset he)).imp id fun ⟨c, hc, hv⟩ => ⟨c, mem_replayed_snoc hc l, hv⟩
  forward := hi.forward.sublist hstream

/-- A change that comes after the snapshot and the changes before it. -/
theorem SecretSubscriber.Resumed.raw {content : List SecretSnapshot} {labels : List SecretLabel}
    {sub : SecretSubscriber} {history : SecretHistory} {rv : Nat} {ns : String} {event : RawWatchEvent}
    {now : Instant} {offered : SecretEvent} (hi : sub.Resumed content labels)
    (hnone : NoneOlder content (history.after rv))
    (hreplay : replayed labels ++ [event] <+: history.after rv)
    (hoffered : event.delivers ns now = some offered) : ∀ e ∈ sub.stream, e.Forward offered := by
  obtain ⟨secret, hsecret, hman, hname, hversion⟩ := delivers_some hoffered
  intro e he heq v hv w hw
  rw [hversion] at hw
  rcases hi.sources e he with ⟨snap, hsnap, hname', hversion'⟩ | ⟨c, hc, hversion'⟩
  · rw [hversion'] at hv
    have hmem : event ∈ history.after rv := hreplay.subset (List.mem_append_right _ List.mem_cons_self)
    refine hnone snap hsnap event hmem secret hsecret hman ?_ v hv w hw
    rw [heq, hname, Option.some.injEq] at hname'
    exact hname'
  · rw [hversion'] at hv
    have hordered : ((replayed labels ++ [event]).map RawWatchEvent.version).Pairwise
        fun a b => ∃ v ∈ a, ∃ w ∈ b, v < w :=
      history.ordered.sublist ((hreplay.sublist.trans List.filter_sublist).map _)
    rw [List.map_append, List.pairwise_append] at hordered
    obtain ⟨v', hv', w', hw', hlt⟩ :=
      hordered.2.2 _ (List.mem_map_of_mem hc) _ (List.mem_map_of_mem List.mem_cons_self)
    obtain rfl := Option.some.inj (hv.symm.trans hv')
    obtain rfl := Option.some.inj (hw.symm.trans hw')
    exact Nat.le_of_lt hlt

theorem SecretSubscriber.Resumed.step {content : List SecretSnapshot} {labels : List SecretLabel}
    {sub sub' : SecretSubscriber} {history : SecretHistory} {rv : Nat} {req : SubscribeSecretsRequest}
    {served : Bool} {w : SecretWatcher} {l : SecretSubscriberLabel} (hi : sub.Resumed content labels)
    (hresume : req.resumeResourceVersion ≠ "")
    (hok : NoneOlder content (history.after rv) ∨ SECRET_CHANNEL_CAPACITY < content.length)
    (hreplay : replayed (labels ++ [.sub l]) <+: history.after rv)
    (h : sub.step req served w l = some sub') : sub'.Resumed content (labels ++ [.sub l]) := by
  have hfilling := hi.filling.step h
  have hout : ∀ {l'} {out : Emitter Status SecretEvent}, SecretOut sub.out l' out → (∀ a, l' ≠ .offer a) →
      SecretSubscriber.stream { sub with out } = sub.stream := fun hout hl => by
    rw [SecretSubscriber.stream, SecretSubscriber.stream, Emitter.items_of_quiet hout hl]
    rfl
  cases SecretSubscriber.move_of_step h with
  | read hphase => exact absurd hphase hi.busy.1
  | @emit event todo out hphase hstep =>
    refine hi.quiet _ rfl hfilling ⟨nofun, nofun⟩ ?_
    have htodo : sub.stream = sub.out.items ++ event :: todo := by
      rw [SecretSubscriber.stream, SecretSubscriber.toCome, hphase]
    rw [htodo]
    rcases Emitter.items_of_offer hstep with ⟨_, hitems⟩ | ⟨_, hitems⟩
    · rw [SecretSubscriber.stream, hitems, List.append_assoc]
      exact List.Sublist.refl _
    · rw [SecretSubscriber.stream, hitems]
      exact (List.sublist_cons_self _ _).append_left _
  | resume hphase | reject hphase | started hphase =>
    refine hi.quiet _ rfl hfilling ⟨nofun, nofun⟩ ?_
    rw [SecretSubscriber.stream, SecretSubscriber.stream, SecretSubscriber.toCome,
      SecretSubscriber.toCome, hphase]
  | subscribe _ _ hreq => exact absurd hreq hresume
  | recv hphase => exact absurd hphase hi.busy.2
  | lagged hphase => exact absurd hphase hi.busy.2
  | @raw event now type secret offered out hphase hoffered hevent hstep =>
    have hsecret : event.secret = some secret ∧ event.type = type := by
      rcases hevent with ⟨rfl, rfl⟩ | ⟨rfl, rfl⟩ | ⟨rfl, rfl⟩ <;> exact ⟨rfl, rfl⟩
    have hdelivers : event.delivers req.ns now = some offered := by
      rw [RawWatchEvent.delivers, hsecret.1, hsecret.2]
      exact hoffered
    have hchange : replayed (labels ++ [.sub (.raw event now)]) = replayed labels ++ [event] := by
      rw [replayed_snoc, SecretLabel.change, hsecret.1]
      rfl
    rcases Emitter.items_of_offer hstep with ⟨_, hitems⟩ | ⟨_, hitems⟩
    · have hstream : SecretSubscriber.stream { sub with out } = sub.stream ++ [offered] := by
        simp only [SecretSubscriber.stream, SecretSubscriber.toCome, hphase, hitems, List.append_nil]
      refine ⟨hi.content, hfilling, hi.busy, fun e he => ?_, ?_⟩
      · rw [hstream, List.mem_append, List.mem_singleton] at he
        rcases he with he | rfl
        · exact (hi.sources e he).imp id fun ⟨c, hc, hv⟩ => ⟨c, mem_replayed_snoc hc _, hv⟩
        · obtain ⟨_, _, _, _, hversion⟩ := delivers_some hdelivers
          refine Or.inr ⟨event, ?_, hversion⟩
          rw [hchange]
          exact List.mem_append_right _ List.mem_cons_self
      · have hnone : NoneOlder content (history.after rv) := by
          refine hok.resolve_right fun hover => ?_
          have hlen := hi.filling
          simp only [SecretSubscriber.Filling, hphase, hi.content] at hlen
          exact absurd hover (Nat.not_lt.mpr hlen.1)
        rw [hstream, NeverBack, List.pairwise_append]
        refine ⟨hi.forward, List.pairwise_singleton _ _, fun e he e' he' => ?_⟩
        rw [List.mem_singleton.mp he']
        exact hi.raw hnone (hchange ▸ hreplay) hdelivers e he
    · refine hi.quiet _ rfl hfilling hi.busy ?_
      rw [SecretSubscriber.stream, hitems]
      exact List.Sublist.refl _
  | rawSkipped => exact hi.quiet _ rfl hfilling hi.busy (List.Sublist.refl _)
  | startFailed _ hstep | rawError _ hstep | rawFailed _ hstep | take _ hstep | hangUp _ hstep =>
    exact hi.quiet _ rfl hfilling hi.busy (hout hstep nofun ▸ List.Sublist.refl _)
  | overrun hphase => exact absurd hphase hi.busy.2
  | finish _ _ _ hstep => exact hi.quiet _ rfl hfilling hi.busy (hout hstep nofun ▸ List.Sublist.refl _)
  | report hstep => exact hi.quiet _ rfl hfilling hi.busy (hout hstep nofun ▸ List.Sublist.refl _)

/-- A call that has read the cache. -/
def SecretSession.opened (w : SecretWatcher) (snaps : List SecretSnapshot) (now : Instant) : SecretSession :=
  { watcher := w
    sub := { SecretSubscriber.new with
      phase := .snapshotting (snaps.map (secretEvent .snapshot now))
      content := snaps } }

theorem SecretSession.step_read (req : SubscribeSecretsRequest) (served : Bool) {w : SecretWatcher}
    {order : List Key} (horder : order.Perm w.cache.keys) (now : Instant) :
    SecretSession.step req served { watcher := w, sub := .new } (.sub (.read order now)) =
      some (.opened w (w.cache.allInNamespace order req.ns) now) := by
  refine SecretSession.step_sub ?_
  rw [SecretSubscriber.step_running req served _ rfl (by simp), SecretSubscriber.taskStep]
  exact if_pos horder

theorem resumed_opened {w : SecretWatcher} {snaps : List SecretSnapshot} (now : Instant)
    (hnames : snaps.Pairwise fun a b => a.name ≠ b.name) :
    (SecretSession.opened w snaps now).sub.Resumed snaps [] where
  content := rfl
  filling := Or.inl ⟨rfl, rfl, rfl, now, [], rfl, Nat.zero_le _, rfl⟩
  busy := ⟨nofun, nofun⟩
  sources := fun e he => by
    obtain ⟨snap, hsnap, rfl⟩ := List.mem_map.mp he
    exact Or.inl ⟨snap, hsnap, rfl, rfl⟩
  forward := by
    show (snaps.map (secretEvent .snapshot now)).Pairwise SecretEvent.Forward
    rw [List.pairwise_map]
    exact hnames.imp fun hne heq => absurd (Option.some.inj heq) hne

/-- Every run of a call that has read the cache. -/
theorem resumed_run {req : SubscribeSecretsRequest} {served : Bool} {w : SecretWatcher}
    {snaps : List SecretSnapshot} {now : Instant} {history : SecretHistory} {rv : Nat}
    (hresume : req.resumeResourceVersion ≠ "") (hnames : snaps.Pairwise fun a b => a.name ≠ b.name)
    (hok : NoneOlder snaps (history.after rv) ∨ SECRET_CHANNEL_CAPACITY < snaps.length)
    {labels : List SecretLabel} {t : SecretSession}
    (hrun : run (SecretSession.step req served) (.opened w snaps now) labels = some t)
    (hreplay : replayed labels <+: history.after rv) : t.sub.Resumed snaps labels := by
  refine run_induction (fun ls t => replayed ls <+: history.after rv → t.sub.Resumed snaps ls)
    (fun _ => resumed_opened now hnames) ?_ labels t hrun hreplay
  intro ls s l t _ ih hstep hreplay
  have hpre : replayed ls <+: history.after rv := by
    refine List.IsPrefix.trans ?_ hreplay
    rw [replayed_snoc]
    exact List.prefix_append _ _
  obtain ⟨l', w, rfl, hw, rfl⟩ | ⟨l', sub, rfl, hsub, rfl⟩ := SecretSession.step_cases hstep
  · exact (ih hpre).quiet _ rfl (ih hpre).filling (ih hpre).busy (List.Sublist.refl _)
  · exact (ih hpre).step hresume hok hreplay hsub

theorem SecretSubscriber.Resumed.neverBack {snaps : List SecretSnapshot} {labels : List SecretLabel}
    {sub : SecretSubscriber} (hi : sub.Resumed snaps labels) : NeverBack sub.delivered := by
  refine hi.forward.sublist ?_
  rw [SecretSubscriber.stream, Emitter.items, Emitter.said, List.filterMap_append, List.append_assoc]
  exact List.sublist_append_left _ _

/-! ### The way back -/

/-- A call in the loop of its raw watch, whose client has taken everything. -/
structure SecretSubscriber.Following (sub : SecretSubscriber) : Prop where
  phase : sub.phase = .watching
  running : sub.out.stage = .running
  listening : sub.out.gone = false
  taken : sub.out.queue = []

/-- A change is delivered, or skipped. -/
theorem follow_change (req : SubscribeSecretsRequest) (served : Bool) {s : SecretSession}
    (hs : s.sub.Following) {c : RawWatchEvent} (hc : c.secret.isSome = true) :
    ∃ labels t, run (SecretSession.step req served) s labels = some t ∧ replayed labels = [c] ∧
      t.sub.Following ∧ t.sub.delivered = s.sub.delivered ++ (c.delivers req.ns 0).toList := by
  obtain ⟨hphase, hrun, hgone, hqueue⟩ := hs
  have hchange : SecretLabel.change (.sub (.raw c 0)) = some c := if_pos hc
  have hraw : s.sub.step req served s.watcher (.raw c 0) = s.sub.emitToMpsc (c.delivers req.ns 0) := by
    rw [SecretSubscriber.step_running req served s.watcher hrun (by simp)]
    simp only [SecretSubscriber.taskStep, hphase]
    cases c with
    | added secret => rfl
    | modified secret => rfl
    | deleted secret => rfl
    | bookmark => cases hc
    | error display => cases hc
  cases hdelivers : c.delivers req.ns 0 with
  | none =>
    rw [hdelivers] at hraw
    refine ⟨[.sub (.raw c 0)], s, ?_, ?_, ⟨hphase, hrun, hgone, hqueue⟩, (List.append_nil _).symm⟩
    · rw [run_singleton, SecretSession.step_sub hraw]
    · simp [replayed, hchange]
  | some event =>
    let offered : Emitter Status SecretEvent := { s.sub.out with queue := [.ok event] }
    let out : Emitter Status SecretEvent :=
      { s.sub.out with queue := [], received := s.sub.out.received ++ [.ok event] }
    have hoffer : SecretOut s.sub.out (.offer event) offered := by
      have hroom : s.sub.out.queue.length < SECRET_CHANNEL_CAPACITY := by
        rw [hqueue]
        decide
      rw [SecretOut, Emitter.offer_room _ hrun hgone hroom, hqueue]
      rfl
    rw [hdelivers, SecretSubscriber.emitToMpsc, SecretSubscriber.outStep, hoffer, Option.map_some] at hraw
    have htake : SecretSubscriber.step req served s.watcher
        { s.sub with phase := .watching, next := s.sub.next, out := offered } .take =
          some { s.sub with phase := .watching, next := s.sub.next, out } := by
      have hout : SecretOut offered .take out :=
        Emitter.take_cons (m := offered) SECRET_CHANNEL_CAPACITY subscriberTooSlow hgone rfl
      rw [SecretSubscriber.step, SecretSubscriber.returned, if_pos rfl, SecretSubscriber.outStep]
      exact congrArg (Option.map _) hout
    refine ⟨[.sub (.raw c 0), .sub .take], { s with sub := { s.sub with phase := .watching, out } }, ?_, ?_,
      ⟨rfl, hrun, hgone, rfl⟩, ?_⟩
    · rw [run_cons, SecretSession.step_sub hraw, Option.bind_some, run_singleton]
      exact SecretSession.step_sub htake
    · simp only [replayed, List.filterMap_cons, hchange]
      rfl
    · simp [SecretSubscriber.delivered, out, List.filterMap_append, Except.toOption]

/-- All changes are delivered, one after the other. -/
theorem follow_changes (req : SubscribeSecretsRequest) (served : Bool) : ∀ (changes : List RawWatchEvent)
    (s : SecretSession), s.sub.Following → (∀ c ∈ changes, c.secret.isSome = true) →
    ∃ labels t, run (SecretSession.step req served) s labels = some t ∧ replayed labels = changes ∧
      t.sub.delivered = s.sub.delivered ++ changes.filterMap (RawWatchEvent.delivers req.ns 0) := by
  intro changes
  induction changes with
  | nil =>
    intro s _ _
    exact ⟨[], s, rfl, rfl, (List.append_nil _).symm⟩
  | cons c changes ih =>
    intro s hs hchanges
    obtain ⟨first, m, hfirst, hone, hm, hdel⟩ := follow_change req served hs (hchanges c List.mem_cons_self)
    obtain ⟨rest, t, hrest, hall, hdel'⟩ := ih m hm fun c' hc' => hchanges c' (List.mem_cons_of_mem _ hc')
    refine ⟨first ++ rest, t, ?_, ?_, ?_⟩
    · rw [run_append, hfirst, Option.bind_some, hrest]
    · rw [replayed_append, hone, hall]
      rfl
    · rw [hdel', hdel, List.append_assoc]
      cases h : c.delivers req.ns 0 <;> simp [h]

/-- A snapshot that fits into the channel is delivered, and the raw watch starts. -/
theorem opened_following {req : SubscribeSecretsRequest} (served : Bool)
    (hresume : req.resumeResourceVersion ≠ "") (w : SecretWatcher) {snaps : List SecretSnapshot}
    (hlen : snaps.length ≤ SECRET_CHANNEL_CAPACITY) (now : Instant) :
    ∃ labels t, run (SecretSession.step req served) (.opened w snaps now) labels = some t ∧
      replayed labels = [] ∧ t.sub.Following ∧
      t.sub.delivered = snaps.map (secretEvent .snapshot now) := by
  let events := snaps.map (secretEvent .snapshot now)
  let queue : List (Except Status SecretEvent) := events.map .ok
  let sub : SecretSubscriber := { (SecretSession.opened w snaps now).sub with
    phase := .snapshotting []
    out := { Emitter.new with queue } }
  have hemits : run (SecretSession.step req served) (.opened w snaps now)
      (List.replicate events.length (.sub .emit)) = some { watcher := w, sub } := by
    have hphase : (SecretSession.opened w snaps now).sub.phase = .snapshotting (events ++ []) := by
      rw [List.append_nil]
      rfl
    rw [run_emits req served events [] _ hphase rfl rfl]
    · rfl
    · show 0 + (snaps.map (secretEvent .snapshot now)).length ≤ SECRET_CHANNEL_CAPACITY
      rw [List.length_map, Nat.zero_add]
      exact hlen
  have hjoin : SecretSession.step req served { watcher := w, sub } (.sub .join) =
      some { watcher := w, sub := { sub with phase := .starting } } := by
    refine SecretSession.step_sub ?_
    rw [SecretSubscriber.step_running req served w rfl (by simp), SecretSubscriber.taskStep]
    exact if_pos hresume
  have hstarted : SecretSession.step req served { watcher := w, sub := { sub with phase := .starting } }
      (.sub .started) = some { watcher := w, sub := { sub with phase := .watching } } :=
    SecretSession.step_sub (SecretSubscriber.step_running req served w rfl (by simp))
  obtain ⟨t, ht, hphase, hout⟩ := run_takes req served queue
    { watcher := w, sub := { sub with phase := .watching } } rfl rfl rfl
  refine ⟨List.replicate events.length (.sub .emit) ++ (.sub .join :: .sub .started ::
    List.replicate queue.length (.sub .take)), t, ?_, ?_, ⟨hphase, ?_, ?_, ?_⟩, ?_⟩
  · rw [run_append, hemits, Option.bind_some, run_cons, hjoin, Option.bind_some, run_cons, hstarted,
      Option.bind_some, ht]
  · have hnone : ∀ {l : SecretLabel} (n : Nat), l.change = none → replayed (List.replicate n l) = [] :=
      fun n hl => List.filterMap_replicate_of_none hl
    rw [replayed_append, hnone _ rfl, List.nil_append]
    exact hnone _ rfl
  · rw [hout]
    rfl
  · rw [hout]
    rfl
  · rw [hout]
  · rw [SecretSubscriber.delivered, hout]
    show ([] ++ queue).filterMap Except.toOption = events
    simp [queue, List.filterMap_map, Function.comp_def, Except.toOption]

/-- A snapshot that fits is delivered, and after it all changes. -/
theorem resumed_all {req : SubscribeSecretsRequest} (served : Bool)
    (hresume : req.resumeResourceVersion ≠ "") (w : SecretWatcher) {snaps : List SecretSnapshot}
    (hlen : snaps.length ≤ SECRET_CHANNEL_CAPACITY) (now : Instant) {changes : List RawWatchEvent}
    (hchanges : ∀ c ∈ changes, c.secret.isSome = true) :
    ∃ labels t, run (SecretSession.step req served) (.opened w snaps now) labels = some t ∧
      replayed labels = changes ∧ t.sub.delivered =
        snaps.map (secretEvent .snapshot now) ++ changes.filterMap (RawWatchEvent.delivers req.ns 0) := by
  obtain ⟨first, m, hfirst, hnone, hfollow, hdel⟩ := opened_following served hresume w hlen now
  obtain ⟨rest, t, hrest, hall, hdel'⟩ := follow_changes req served changes m hfollow hchanges
  refine ⟨first ++ rest, t, ?_, ?_, ?_⟩
  · rw [run_append, hfirst, Option.bind_some, hrest]
  · rw [replayed_append, hnone, hall, List.nil_append]
  · rw [hdel', hdel]

/-- **An older change takes a client back**, unless the snapshot does not fit. -/
theorem resumed_backward {req : SubscribeSecretsRequest} (served : Bool)
    (hresume : req.resumeResourceVersion ≠ "") (w : SecretWatcher) {snaps : List SecretSnapshot}
    (hlen : snaps.length ≤ SECRET_CHANNEL_CAPACITY) (now : Instant) {changes : List RawWatchEvent}
    (hchanges : ∀ c ∈ changes, c.secret.isSome = true) (holder : ¬ NoneOlder snaps changes) :
    ∃ labels t, run (SecretSession.step req served) (.opened w snaps now) labels = some t ∧
      replayed labels = changes ∧ ¬ NeverBack t.sub.delivered := by
  obtain ⟨labels, t, hrun, hall, hdel⟩ := resumed_all served hresume w hlen now hchanges
  refine ⟨labels, t, hrun, hall, fun hback => holder ?_⟩
  rw [hdel, NeverBack, List.pairwise_append] at hback
  intro snap hsnap c hc secret hsecret hman hname v hv w' hw'
  obtain ⟨event, hevent, hename, heversion⟩ := delivers_of_managed req.ns 0 hsecret hman
  refine hback.2.2 _ (List.mem_map_of_mem hsnap) event (List.mem_filterMap.mpr ⟨c, hc, hevent⟩) ?_ v hv w' ?_
  · rw [hename, hname]
    rfl
  · rw [heversion]
    exact hw'

/-- Every change that is replayed is a change of a secret. -/
theorem secret_of_mem_after {history : SecretHistory} {rv : Nat} {c : RawWatchEvent}
    (h : c ∈ history.after rv) : c.secret.isSome = true := by
  have hversion := (List.mem_filter.mp h).2
  rw [RawWatchEvent.version] at hversion
  cases hc : c.secret with
  | none =>
    rw [hc] at hversion
    cases hversion
  | some secret => rfl

/-- **A resumed stream never goes back exactly when no change after the resume version is
older than what is cached of its secret**, or the snapshot does not fit into the channel,
and the stream ends before the raw watch. -/
theorem secrets_resume_iff (req : SubscribeSecretsRequest) (served : Bool) (w : SecretWatcher)
    (hkeyed : w.cache.Keyed SecretSnapshot.key) (order : List Key) (horder : order.Perm w.cache.keys)
    (now : Instant) (history : SecretHistory) (rv : Nat)
    (hresume : parseU64 req.resumeResourceVersion = some rv) :
    (∀ labels t,
      run (SecretSession.step req served) { watcher := w, sub := .new } (.sub (.read order now) :: labels) =
        some t →
      replayed labels <+: history.after rv → NeverBack t.sub.delivered) ↔
    NoneOlder (w.cache.allInNamespace order req.ns) (history.after rv) ∨
      SECRET_CHANNEL_CAPACITY < (w.cache.allInNamespace order req.ns).length := by
  have hne : req.resumeResourceVersion ≠ "" := by
    intro h
    rw [h] at hresume
    cases hresume
  simp only [run_cons, SecretSession.step_read req served horder, Option.bind_some]
  refine ⟨fun hall => ?_, fun hok labels t hrun hreplay => ?_⟩
  · by_contra hcon
    rw [not_or] at hcon
    obtain ⟨labels, t, hrun, hreplay, hback⟩ := resumed_backward served hne w (Nat.not_lt.mp hcon.2) now
      (fun c hc => secret_of_mem_after hc) hcon.1
    exact hback (hall labels t hrun (hreplay ▸ List.prefix_rfl))
  · exact (resumed_run hne (names_distinct hkeyed horder req.ns) hok hrun hreplay).neverBack

/-- The managed secret `trading/keys` at a resource version. -/
def managedKeysAt (rv : String) : Secret where
  metadata := { name := some "keys", resourceVersion := some rv, labels := some [(MANAGED_LABEL, "true")] }
  data := none

theorem version_keysAt_five : (RawWatchEvent.modified (managedKeysAt "5")).version = some 5 := by decide +kernel

theorem version_keysAt_seven : (RawWatchEvent.modified (managedKeysAt "7")).version = some 7 := by decide +kernel

/-- The secret was changed at version 5 and at version 7. -/
def keysHistory : SecretHistory where
  changes := [.modified (managedKeysAt "5"), .modified (managedKeysAt "7")]
  ordered := by simp [version_keysAt_five, version_keysAt_seven]

def keysAtSeven : SecretSnapshot where
  name := "keys"
  ns := "trading"
  schemaVersion := 0
  data := []
  resourceVersion := "7"
  loadedAt := 0

/-- The watcher has cached version 7. -/
def keysWatcher : SecretWatcher := .start (SecretCache.update ∅ keysAtSeven)

theorem keysWatcher_keyed : keysWatcher.cache.Keyed SecretSnapshot.key :=
  (Map.keyed_empty SecretSnapshot.key).insert keysAtSeven

/-- A request that resumes at a version. -/
def keysResumed (rv : String) : SubscribeSecretsRequest :=
  { ns := "trading", names := [], resumeResourceVersion := rv }

/-- Resumed at version 5, the stream repeats version 7. -/
theorem secrets_resume_repeats : ∃ labels t,
    run (SecretSession.step (keysResumed "5") true) { watcher := keysWatcher, sub := .new }
      (.sub (.read [⟨"trading", "keys"⟩] 0) :: labels) = some t ∧
    replayed labels = keysHistory.after 5 ∧ NeverBack t.sub.delivered := by
  have hafter : keysHistory.after 5 = [.modified (managedKeysAt "7")] := by
    simp [SecretHistory.after, keysHistory, version_keysAt_five, version_keysAt_seven]
  have hnone : NoneOlder [keysAtSeven] (keysHistory.after 5) := by
    intro snap hsnap c hc secret hsecret _ _ v hv w hw
    obtain rfl : snap = keysAtSeven := List.mem_singleton.mp hsnap
    rw [hafter, List.mem_singleton] at hc
    subst hc
    have h7 : (RawWatchEvent.modified (managedKeysAt "7")).version =
        parseU64 keysAtSeven.resourceVersion := rfl
    rw [h7] at hw
    exact Nat.le_of_eq (Option.some.inj (hv.symm.trans hw))
  have horder : List.Perm [⟨"trading", "keys"⟩] keysWatcher.cache.keys := by decide
  have hread := SecretSession.step_read (keysResumed "5") true horder 0
  have hresume : (keysResumed "5").resumeResourceVersion ≠ "" := by decide
  have hroom : [keysAtSeven].length ≤ SECRET_CHANNEL_CAPACITY := by decide
  have hchanges : ∀ c ∈ keysHistory.after 5, c.secret.isSome = true := fun c hc => secret_of_mem_after hc
  obtain ⟨labels, t, hrun, hreplay, _⟩ := resumed_all true hresume keysWatcher hroom 0 hchanges
  have hopened : run (SecretSession.step (keysResumed "5") true) { watcher := keysWatcher, sub := .new }
      (.sub (.read [⟨"trading", "keys"⟩] 0) :: labels) = some t := by
    rw [run_cons, hread, Option.bind_some]
    exact hrun
  refine ⟨labels, t, hopened, hreplay, ?_⟩
  exact (secrets_resume_iff (keysResumed "5") true keysWatcher keysWatcher_keyed _ horder 0 keysHistory 5
    (by decide +kernel)).mpr (Or.inl hnone) labels t hopened (hreplay ▸ List.prefix_rfl)

/-- Resumed at version 3, the stream has version 5 after version 7. -/
theorem secrets_resume_goes_back :
    ¬ ∀ (req : SubscribeSecretsRequest) (served : Bool) (w : SecretWatcher),
      w.cache.Keyed SecretSnapshot.key → ∀ order : List Key, order.Perm w.cache.keys →
      ∀ (now : Instant) (history : SecretHistory) (rv : Nat),
      parseU64 req.resumeResourceVersion = some rv → history.after rv ≠ [] → ∀ labels t,
      run (SecretSession.step req served) { watcher := w, sub := .new } (.sub (.read order now) :: labels) =
        some t →
      replayed labels <+: history.after rv → NeverBack t.sub.delivered := by
  intro hall
  have hafter : keysHistory.after 3 = keysHistory.changes := by
    simp [SecretHistory.after, keysHistory, version_keysAt_five, version_keysAt_seven]
  have holder : ¬ NoneOlder [keysAtSeven] (keysHistory.after 3) := by
    intro hnone
    rw [hafter] at hnone
    have hle := hnone keysAtSeven List.mem_cons_self (.modified (managedKeysAt "5")) List.mem_cons_self
      (managedKeysAt "5") rfl (by decide +kernel) rfl 7 (by decide +kernel) 5 (by decide +kernel)
    exact absurd hle (by decide)
  have horder : List.Perm [⟨"trading", "keys"⟩] keysWatcher.cache.keys := by decide
  have hread := SecretSession.step_read (keysResumed "3") true horder 0
  have hresume : (keysResumed "3").resumeResourceVersion ≠ "" := by decide
  have hroom : [keysAtSeven].length ≤ SECRET_CHANNEL_CAPACITY := by decide
  obtain ⟨labels, t, hrun, hreplay, hback⟩ := resumed_backward true hresume keysWatcher hroom 0
    (fun c hc => secret_of_mem_after hc) holder
  refine hback (hall (keysResumed "3") true keysWatcher keysWatcher_keyed [⟨"trading", "keys"⟩] horder 0
    keysHistory 3 (by decide +kernel) (by rw [hafter]; exact List.cons_ne_nil _ _) labels t ?_
    (hreplay ▸ List.prefix_rfl))
  rw [run_cons, hread, Option.bind_some]
  exact hrun

end Konfig
