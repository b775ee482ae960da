import Konfig.Consumer.CatchUp
import Konfig.Consumer.ReadModel
import Konfig.Etcd
import Konfig.FollowsStore
import Konfig.Provenance
import Konfig.Subscribe.Coalesce
import Konfig.Subscribe.Snapshot

/-!
# A connected consumer follows the API server

The API server with its history, the list and watch stream of a namespace watcher, its pump,
and one consumer with its subscription (`Link`).  The consumer comes with whatever it has
read before, under whatever cursor; the connection replays or sends a snapshot, lags, is cut
and made anew, in any order.  A watcher does not outlive its stream: once that is lost nothing
is told any more, and the connections over it are cut; the next one starts a watcher, which
lists anew.  From when a connection is attached, its frames reach the consumer in their order,
whatever was sent before them.

* `framesView`: what the frames say of each config; it follows the store (`Lib.Follower`).
* `ConnectedSince`: the frames since the attachment reach the consumer after all else.
* `Link.ahead`: what is ahead of the driver; it falls until everything is taken.
* `connected_follows`: a consumer that has taken everything reads the last revision told.
-/

namespace Konfig

open Lib

/-! ### What is broadcast -/

/-- The stream of a namespace watcher selects its namespace. -/
def selectsNamespace (ns : String) (key : Key) (_ : DynamicObject) : Bool := key.ns = ns

/-- What is broadcast is read as what can be parsed. -/
def broadcastReader : Reader Key DynamicObject Config where
  read obj := (parseConfigObject 0 obj).map fun snap => (snap.key, snapshotToProto 0 snap)
  mark cfg := cfg
  plain cfg := cfg
  rank cfg := revisionOf cfg.resourceVersion
  plain_mark _ := rfl
  rank_plain _ := rfl

theorem broadcastReader_ordered {s : Etcd} (h : s.Dated) : broadcastReader.Ordered s := by
  refine h.ordered fun rev key obj k cfg hstored hread => ?_
  obtain ⟨parsed, hparse, heq⟩ := Option.map_eq_some_iff.mp hread
  cases heq
  obtain ⟨hkey, hrv⟩ := hstored.parsed hparse
  exact ⟨hkey, (congrArg revisionOf hrv).trans (revisionOf_toString rev)⟩

/-- The config that a frame brings, unless it is a delete. -/
def BroadcastFrame.brings (f : BroadcastFrame) : Option (Key × Config) :=
  if f.event.eventType = .deleted then none else f.event.config.map fun cfg => (⟨cfg.ns, cfg.name⟩, cfg)

theorem BroadcastFrame.brings_eq_some {f : BroadcastFrame} {key : Key} {cfg : Config} :
    f.brings = some (key, cfg) ↔ f.event.eventType ≠ .deleted ∧ f.event.config = some cfg ∧
      key = ⟨cfg.ns, cfg.name⟩ := by
  unfold BroadcastFrame.brings
  split
  · simp_all
  · rename_i htype
    rw [Option.map_eq_some_iff]
    constructor
    · rintro ⟨cfg', hcfg, heq⟩
      cases heq
      exact ⟨htype, hcfg, rfl⟩
    · rintro ⟨-, hcfg, rfl⟩
      exact ⟨cfg, hcfg, rfl⟩

def BroadcastFrame.addTo (view : Key → Option Config) (f : BroadcastFrame) : Key → Option Config :=
  match f.brings with
  | some p => Function.update view p.1 (some p.2)
  | none => view

/-- What frames say of each config. -/
def framesView (fs : List BroadcastFrame) : Key → Option Config := fs.foldl BroadcastFrame.addTo fun _ => none

theorem framesView_snoc (fs : List BroadcastFrame) (f : BroadcastFrame) :
    framesView (fs ++ [f]) = f.addTo (framesView fs) := by
  rw [framesView, List.foldl_append]
  rfl

/-- The frame of an event says what is read of the event. -/
theorem framesView_event (fs : List BroadcastFrame) (now : Instant) (event : WatchEvent DynamicObject) :
    framesView (fs ++ (frameOf now event).toList) = broadcastReader.absorb (framesView fs) (some event) := by
  rw [frameOf_now]
  cases event with
  | init | initDone => exact congrArg framesView (List.append_nil fs)
  | delete obj =>
    rw [frameOf, eventObject, Option.bind_some]
    cases parseConfigObject 0 obj with
    | none => exact congrArg framesView (List.append_nil fs)
    | some snap => exact framesView_snoc fs _
  | apply obj | initApply obj =>
    rw [frameOf, eventObject, Option.bind_some, Reader.absorb, broadcastReader]
    dsimp only
    cases parseConfigObject 0 obj with
    | none => exact congrArg framesView (List.append_nil fs)
    | some snap => exact framesView_snoc fs _

/-- What frames say of a config is said by the last of them that brings it. -/
theorem framesView_eq_some {key : Key} {cfg : Config} : ∀ {fs : List BroadcastFrame},
    framesView fs key = some cfg → ∃ before f after, fs = before ++ f :: after ∧ f.brings = some (key, cfg) ∧
      ∀ g ∈ after, ∀ other, g.brings ≠ some (key, other) := by
  intro fs
  induction fs using List.reverseRecOn with
  | nil => intro h; cases h
  | append_singleton fs f ih =>
    intro h
    rw [framesView_snoc, BroadcastFrame.addTo] at h
    have hearlier : framesView fs key = some cfg → (∀ other, f.brings ≠ some (key, other)) →
        ∃ before f' after, fs ++ [f] = before ++ f' :: after ∧ f'.brings = some (key, cfg) ∧
          ∀ g ∈ after, ∀ other, g.brings ≠ some (key, other) := by
      intro hview hf
      obtain ⟨before, f', after, rfl, hbrings, hafter⟩ := ih hview
      refine ⟨before, f', after ++ [f], by rw [List.append_assoc]; rfl, hbrings, fun g hg => ?_⟩
      rcases List.mem_append.mp hg with hg | hg
      · exact hafter g hg
      · rw [List.mem_singleton.mp hg]
        exact hf
    cases hf : f.brings with
    | none =>
      rw [hf] at h
      exact hearlier h fun other heq => by cases heq.symm.trans hf
    | some p =>
      obtain ⟨k, c⟩ := p
      rw [hf] at h
      dsimp only at h
      by_cases hk : key = k
      · subst hk
        rw [Function.update_self, Option.some.injEq] at h
        subst h
        exact ⟨fs, f, [], rfl, hf, fun g hg => absurd hg List.not_mem_nil⟩
      · rw [Function.update_of_ne hk] at h
        refine hearlier h fun other heq => hk ?_
        exact (congrArg Prod.fst (Option.some.inj (hf.symm.trans heq))).symm

/-! ### The pump -/

def PumpLabel.frames : PumpLabel → List BroadcastFrame
  | .watch event now => (frameOf now event).toList
  | .elapsed | .send => []

/-- A step of the pump pushes the frame of its event. -/
theorem Pump.pushed_step {coalesced : Bool} {p p' : Pump} {l : PumpLabel} (h : p.step coalesced l = some p') :
    p'.pushed = p.pushed ++ l.frames := by
  cases l with
  | elapsed | send =>
    obtain ⟨fs, -, hframes, -, hpushed, -⟩ | ⟨f, -, hpushed, -⟩ := Pump.step_cases h
    · have hfs : fs = [] := by
        refine List.eq_nil_iff_forall_not_mem.mpr fun f hf => ?_
        obtain ⟨now, event, hl, -⟩ := hframes f hf
        cases hl
      rw [hpushed, hfs]
      rfl
    · rw [hpushed, PumpLabel.frames, List.append_nil]
  | watch event now =>
    simp only [Pump.step, processNamespaceEvent_eq] at h
    split at h
    · rename_i hempty
      have hflush : p.flushing = [] := List.isEmpty_iff.mp hempty
      show _ = p.pushed ++ (frameOf now event).toList
      cases hf : frameOf now event with
      | none =>
        simp only [hf, Option.some.injEq] at h
        subst h
        simp [Pump.pushed]
      | some f =>
        simp only [hf] at h
        repeat' split at h
        all_goals
          cases h
          simp [Pump.pushed, hflush]
    · cases h

/-- A pump that sends nothing takes an event. -/
theorem Pump.takes_event {p : Pump} (coalesced : Bool) (h : p.flushing = []) (event : WatchEvent DynamicObject) :
    ∃ p', p.step coalesced (.watch event 0) = some p' ∧ p'.sent = p.sent := by
  simp only [Pump.step, h, List.isEmpty_nil, if_true]
  repeat' split
  all_goals exact ⟨_, rfl, rfl⟩

/-- What was pushed before a frame is before it. -/
theorem prefix_length_le {pushed before after : List BroadcastFrame} {f : BroadcastFrame}
    (h : pushed <+: before ++ f :: after) (hf : f ∉ pushed) : pushed.length ≤ before.length := by
  obtain ⟨rest, hrest⟩ := h
  by_contra hlt
  have hget : (pushed ++ rest)[before.length]? = some f := by
    rw [hrest, List.getElem?_append_right le_rfl, Nat.sub_self]
    rfl
  rw [List.getElem?_append_left (by omega)] at hget
  exact hf (List.mem_of_getElem? hget)

/-! ### Since the attachment -/

/-- The receiver was attached when `start` frames had been sent. -/
def Since (filter : SubscribeFilter) (start : Nat) (sent : List BroadcastFrame) (sub : Subscriber) : Prop :=
  match sub.phase with
  | .connecting => False
  | .attached | .missed | .snapshotting _ _ => sub.next = start ∧ start ≤ sent.length
  | .replaying _ | .bridging | .closed => ∃ base slice, Feed filter base slice start sent sub

section

variable {filter : SubscribeFilter} {start : Nat} {sent sent' : List BroadcastFrame} {p : Pump}
  {sub sub' : Subscriber}

theorem Since.mono (h : Since filter start sent sub) (hsent : sent <+: sent') : Since filter start sent' sub := by
  unfold Since at h ⊢
  cases hphase : sub.phase with
  | connecting => simp only [hphase] at h
  | attached | missed | snapshotting =>
    simp only [hphase] at h ⊢
    exact ⟨h.1, h.2.trans hsent.length_le⟩
  | replaying | bridging | closed =>
    simp only [hphase] at h ⊢
    obtain ⟨base, slice, hfeed⟩ := h
    exact ⟨base, slice, hfeed.mono hsent⟩

theorem Since.of_feed {base : List ConfigEvent} {slice : List ReplayItem}
    (h : Feed filter base slice start sent sub) : Since filter start sent sub := by
  cases hphase : sub.phase with
  | replaying | bridging | closed =>
    simp only [Since, hphase]
    exact ⟨base, slice, h⟩
  | connecting | attached | missed | snapshotting => simp only [Feed, hphase] at h

theorem Since.move {label : SubscriberLabel} (h : Since filter start p.sent sub)
    (hm : sub.Move filter p label sub') : Since filter start p.sent sub' := by
  have hfed : (∃ base slice, Feed filter base slice start p.sent sub) → Since filter start p.sent sub' := by
    rintro ⟨base, slice, hfeed⟩
    exact .of_feed (hfeed.move hm)
  cases hm with
  | attach hphase => simp only [Since, hphase] at h
  | miss hphase _ | readCache hphase _ | snapshot hphase => simpa only [Since, hphase] using h
  | hit hphase _ | readBuffer hphase =>
    -- the slice begins with what is in the channel
    simp only [Since, hphase] at h
    exact ⟨sub.stream, _, h.1, h.2, [], rfl, (List.append_nil _).symm⟩
  | replay hphase | bridge hphase | recv hphase _ =>
    simp only [Since, hphase] at h
    exact hfed h
  | take => exact h
  | close => exact ⟨[], [], trivial⟩

end

/-! ### The feed -/

section

variable [SerdeJson]

/-- The API server, the stream of the namespace watcher, which may have been lost, and a consumer with
its subscription. -/
structure NamespaceFeed where
  store : Etcd
  pos : Position Key
  link : Link
  live : Bool

/-- Every frame so far. -/
abbrev NamespaceFeed.pushed (x : NamespaceFeed) : List BroadcastFrame := x.link.session.pump.pushed

/-- A namespace watcher starts, and a consumer subscribes with what it has. -/
def NamespaceFeed.start (s : Etcd) (d : Driver) : NamespaceFeed :=
  ⟨s, .lost, { session := .new d.resumeRv, driver := d, snapshot := [] }, true⟩

def LinkLabel.isWatch : LinkLabel → Bool
  | .server (.pump (.watch _ _)) => true
  | _ => false

/-- A write by anybody, a delivery, the loss of the stream, or any other step of the link that may be
made. -/
inductive NamespaceFeed.Step (coalesced : Bool) (ns : String) (may : LinkLabel → Prop) :
    NamespaceFeed → NamespaceFeed → Prop
  | written {x : NamespaceFeed} {s' : Etcd} : x.store.Written s' → Step coalesced ns may x { x with store := s' }
  | skipped {x : NamespaceFeed} {pos' : Position Key} : x.live = true →
      Delivers x.store (selectsNamespace ns) x.pos none pos' → Step coalesced ns may x { x with pos := pos' }
  | told {x : NamespaceFeed} {event : WatchEvent DynamicObject} {pos' : Position Key} {l' : Link} (now : Instant) :
      x.live = true → Delivers x.store (selectsNamespace ns) x.pos (some event) pos' →
      x.link.step coalesced (.server (.pump (.watch event now))) = some l' →
      Step coalesced ns may x { x with pos := pos', link := l' }
  /-- It ends or fails. -/
  | lost {x : NamespaceFeed} : Step coalesced ns may x { x with live := false }
  | moved {x : NamespaceFeed} {label : LinkLabel} {l' : Link} : may label → label.isWatch = false →
      x.link.step coalesced label = some l' → Step coalesced ns may x { x with link := l' }
  /-- The consumer's stream ends with the watcher's, and it connects to the next watcher. -/
  | replaced {x : NamespaceFeed} {error : Bool} {now : Instant} {l' : Link} : x.live = false →
      may (.cut error now) → x.link.step coalesced (.cut error now) = some l' →
      Step coalesced ns may x (.start x.store l'.driver)

/-- The follower that the frames are. -/
def NamespaceFeed.follower (x : NamespaceFeed) : Follower Key DynamicObject Config where
  store := x.store
  pos := x.pos
  shown := framesView x.pushed
  staged := framesView x.pushed

/-! ### A step of a link -/

/-- What a step of a link can do. -/
inductive Link.Move (coalesced : Bool) (l : Link) : LinkLabel → Link → Prop
  | pump {label : PumpLabel} {p' : Pump} : l.session.pump.step coalesced label = some p' →
      Move coalesced l (.server (.pump label)) { l with session := { l.session with pump := p' } }
  | sub {label : SubscriberLabel} {sub' : Subscriber} {snapshot' : List ConfigEvent} : label ≠ .take →
      l.session.sub.step (.ofNames l.driver.names) l.session.pump label = some sub' →
      Move coalesced l (.server (.sub label))
        { l with session := { l.session with sub := sub' }, snapshot := snapshot' }
  | deliver {event : ConfigEvent} {now : Instant} : 0 < l.session.sub.unread →
      l.session.sub.stream[l.taken]? = some event →
      Move coalesced l (.deliver now)
        { l with session := { l.session with sub := { l.session.sub with unread := l.session.sub.unread - 1 } },
                 driver := l.driver.apply now event }
  | cut {error : Bool} {now : Instant} {d : Driver} : d = l.driver ∨ d = l.driver.markAllStale now →
      Move coalesced l (.cut error now)
        { session := { l.session with sub := .new l.driver.resumeRv }, driver := d, snapshot := [] }
  | refused {now : Instant} : l.session.sub.phase = .connecting →
      Move coalesced l (.refused now) { l with driver := l.driver.markAllStale now }

variable {coalesced : Bool} {l l' : Link} {label : LinkLabel}

theorem Link.move_of_step (h : l.step coalesced label = some l') : l.Move coalesced label l' := by
  cases label with
  | server label =>
    cases label with
    | pump label =>
      obtain ⟨session, hs, rfl⟩ := Option.map_eq_some_iff.mp h
      obtain ⟨p', hp, rfl⟩ := Option.map_eq_some_iff.mp hs
      exact .pump hp
    | sub label =>
      cases label with
      | take => cases h
      | attach | lookup _ | readCache _ _ | readBuffer | emit | recv | drain =>
        obtain ⟨session, hs, rfl⟩ := Option.map_eq_some_iff.mp h
        obtain ⟨sub', hsub, rfl⟩ := Option.map_eq_some_iff.mp hs
        exact .sub (fun heq => by cases heq) hsub
  | deliver now =>
    simp only [Link.step] at h
    split at h
    · rename_i session event hs hevent
      obtain ⟨sub', hsub, rfl⟩ := Option.map_eq_some_iff.mp hs
      simp only [Subscriber.step] at hsub
      split at hsub
      · rename_i hunread
        cases hsub
        cases h
        exact .deliver hunread hevent
      · cases hsub
    · cases h
  | cut error now =>
    cases h
    cases error with
    | true => exact .cut (.inr rfl)
    | false => exact .cut (.inl rfl)
  | refused now =>
    simp only [Link.step] at h
    split at h
    · rename_i hphase
      cases h
      exact .refused hphase
    · cases h

/-- Only an event pushes a frame. -/
theorem Link.Move.pushed_eq (h : l.Move coalesced label l') (hlabel : label.isWatch = false) :
    l'.session.pump.pushed = l.session.pump.pushed := by
  cases h with
  | @pump label p' hp =>
    have hpushed := Pump.pushed_step hp
    cases label with
    | watch event now => cases hlabel
    | elapsed | send =>
      rw [PumpLabel.frames, List.append_nil] at hpushed
      exact hpushed
  | sub _ _ | deliver _ _ | cut _ | refused _ => rfl

theorem Link.Move.tracks (h : l.Move coalesced label l') (ht : l.driver.Tracks) : l'.driver.Tracks := by
  cases h with
  | pump _ | sub _ _ => exact ht
  | deliver _ _ => exact ht.apply _ _
  | cut hd =>
    rcases hd with rfl | rfl
    · exact ht
    · exact (Driver.ledger_markAllStale ht _).2
  | refused _ => exact (Driver.ledger_markAllStale ht _).2

/-- Nothing has been sent on a connection that is not attached. -/
def Subscriber.Unsent (sub : Subscriber) : Prop := sub.phase = .connecting → sub.stream = [] ∧ sub.unread = 0

theorem Link.Move.unsent (h : l.Move coalesced label l') (hu : l.session.sub.Unsent) : l'.session.sub.Unsent := by
  cases h with
  | pump _ | refused _ => exact hu
  | sub htake hs =>
    intro hphase
    cases Subscriber.step_move hs with
    | take => exact absurd rfl htake
    | attach _ | hit _ _ | miss _ _ | readCache _ _ | readBuffer _ | snapshot _ | replay _ | bridge _ | recv _ _
    | close _ => simp_all
  | deliver hunread _ =>
    intro hphase
    exact absurd (hu hphase).2 hunread.ne'
  | cut _ => exact fun _ => ⟨rfl, rfl⟩

/-! ### The frames follow the store -/

variable {ns : String} {may : LinkLabel → Prop} {x x' : NamespaceFeed}

/-- The frames follow the store, and are of the namespace and of its revisions. -/
structure NamespaceFeed.Inv (ns : String) (x : NamespaceFeed) : Prop where
  dated : x.store.Dated
  follows : x.follower.Inv broadcastReader (selectsNamespace ns)
  within : ∀ f ∈ x.pushed, ∀ p, f.brings = some p →
    p.1.ns = ns ∧ revisionOf p.2.resourceVersion ≤ x.store.rev
  tracks : x.link.driver.Tracks
  early : x.link.session.sub.Unsent

omit [SerdeJson] in
/-- A frame that brings a config was told, and is of a revision that there is. -/
theorem brings_of_delivered {s : Etcd} (hs : s.Dated) {pos pos' : Position Key} {event : WatchEvent DynamicObject}
    (hdel : Delivers s (selectsNamespace ns) pos (some event) pos') (hpos : pos.frontier s ≤ s.rev) {now : Instant}
    {f : BroadcastFrame} (hf : f ∈ frameOf now event) {p : Key × Config} (hp : f.brings = some p) :
    p.1.ns = ns ∧ revisionOf p.2.resourceVersion ≤ s.rev := by
  have htype : f.event.eventType ≠ .deleted := by
    intro htype
    rw [BroadcastFrame.brings, if_pos htype] at hp
    cases hp
  obtain ⟨obj, hobj, snap, hparse, hconfig⟩ := frameOf_present hf htype
  rw [BroadcastFrame.brings, if_neg htype, hconfig, Option.map_some, Option.some.injEq] at hp
  subst hp
  have hselected : ∀ n key, n ≤ s.rev → s.selected (selectsNamespace ns) n key = some obj →
      snap.ns = ns ∧ revisionOf snap.resourceVersion ≤ s.rev := by
    intro n key hn hat
    obtain ⟨hat, hsel⟩ := Revisions.selected_eq_some.mp hat
    obtain ⟨m, hm, hstored, -⟩ := hs.stored n key obj hat
    obtain ⟨hkey, hrv⟩ := hstored.parsed hparse
    refine ⟨(congrArg Key.ns hkey).trans (of_decide_eq_true hsel), ?_⟩
    rw [hrv, revisionOf_toString]
    exact hm.trans hn
  cases hdel with
  | init | initDone | delete _ _ _ _ => cases hobj
  | initApply hat =>
    cases hobj
    exact hselected _ _ hpos hat
  | apply hlt hat _ =>
    cases hobj
    exact hselected _ _ hlt hat

omit [SerdeJson] in
theorem NamespaceFeed.inv_start {s : Etcd} {d : Driver} (hs : s.Dated) (hd : d.Tracks) (ns : String) :
    (NamespaceFeed.start s d).Inv ns where
  dated := hs
  follows := Follower.inv_start (broadcastReader_ordered hs)
  within _ hf := absurd hf List.not_mem_nil
  tracks := hd
  early _ := ⟨rfl, rfl⟩

/-- **A step keeps the invariant, and takes no frame back** as long as nothing is cut. -/
theorem NamespaceFeed.Inv.step (h : x.Inv ns) (hstep : x.Step coalesced ns may x') :
    x'.Inv ns ∧ ((∀ label, may label → label.isCut = false) → x.pushed <+: x'.pushed) := by
  cases hstep with
  | written hw =>
    obtain ⟨hext, hdated⟩ := h.dated.written hw
    have hstores : x.follower.Step broadcastReader (selectsNamespace ns) _ :=
      .stores hext (broadcastReader_ordered hdated)
    refine ⟨⟨hdated, (h.follows.step hstores).1, fun f hf p hp => ?_, h.tracks, h.early⟩, fun _ => List.prefix_rfl⟩
    exact ⟨(h.within f hf p hp).1, (h.within f hf p hp).2.trans hext.rev⟩
  | skipped _ hdel =>
    have hshows : x.follower.Step broadcastReader (selectsNamespace ns) _ := .shows hdel
    exact ⟨⟨h.dated, (h.follows.step hshows).1, h.within, h.tracks, h.early⟩, fun _ => List.prefix_rfl⟩
  | lost => exact ⟨⟨h.dated, h.follows, h.within, h.tracks, h.early⟩, fun _ => List.prefix_rfl⟩
  | replaced _ hcut hl =>
    refine ⟨NamespaceFeed.inv_start h.dated ((Link.move_of_step hl).tracks h.tracks) ns, fun hmay => ?_⟩
    cases hmay _ hcut
  | @told event pos' l' now _ hdel hl =>
    cases Link.move_of_step hl with
    | pump hp =>
      have hpushed := Pump.pushed_step hp
      have hshows : x.follower.Step broadcastReader (selectsNamespace ns) _ := .shows hdel
      have hinv := (h.follows.step hshows).1
      have hview : broadcastReader.absorb x.follower.staged (some event) = framesView _ :=
        (framesView_event x.pushed now event).symm
      rw [hview, ← PumpLabel.frames, ← hpushed] at hinv
      refine ⟨⟨h.dated, hinv, fun f hf p hbrings => ?_, h.tracks, h.early⟩, fun _ => ?_⟩
      · rw [NamespaceFeed.pushed, hpushed] at hf
        rcases List.mem_append.mp hf with hf | hf
        · exact h.within f hf p hbrings
        · exact brings_of_delivered h.dated hdel h.follows.told.reached (Option.mem_toList.mp hf) hbrings
      · rw [NamespaceFeed.pushed, NamespaceFeed.pushed, hpushed]
        exact List.prefix_append _ _
  | moved _ hlabel hl =>
    have hmove := Link.move_of_step hl
    have hpushed : { x with link := _ }.pushed = x.pushed := hmove.pushed_eq hlabel
    refine ⟨⟨h.dated, ?_, ?_, hmove.tracks h.tracks, hmove.unsent h.early⟩, fun _ => ?_⟩
    · rw [NamespaceFeed.follower, hpushed]
      exact h.follows
    · rw [hpushed]
      exact h.within
    · rw [hpushed]

theorem NamespaceFeed.Inv.run (h : x.Inv ns)
    (hrun : Relation.ReflTransGen (NamespaceFeed.Step coalesced ns may) x x') :
    x'.Inv ns ∧ ((∀ label, may label → label.isCut = false) → x.pushed <+: x'.pushed) := by
  induction hrun with
  | refl => exact ⟨h, fun _ => List.prefix_rfl⟩
  | tail _ hstep ih =>
    obtain ⟨hinv, hpushed⟩ := ih
    obtain ⟨hinv', hpushed'⟩ := hinv.step hstep
    exact ⟨hinv', fun hmay => (hpushed hmay).trans (hpushed' hmay)⟩

/-! ### A connection that is not cut -/

/-- The frames since the attachment come after all else, and the driver has applied what it took. -/
structure ConnectedSince (names : List String) (start : Nat) (d : Driver) (l : Link) : Prop where
  names_eq : l.driver.names = names
  since : Since (.ofNames names) start l.session.pump.sent l.session.sub
  unread : l.session.sub.unread ≤ l.session.sub.stream.length
  applied : ∃ taken : List (Instant × ConfigEvent), taken.map Prod.snd = l.session.sub.stream.take l.taken ∧
    l.driver = taken.foldl (fun d e => d.apply e.1 e.2) d

theorem connectedSince_attach (h : l.step coalesced (.server (.sub .attach)) = some l')
    (hu : l.session.sub.Unsent) :
    ConnectedSince l.driver.names l.session.pump.sent.length l.driver l' := by
  cases Link.move_of_step h with
  | @sub _ sub' _ htake hs =>
    have hcount := Subscriber.step_unread hs htake
    cases Subscriber.step_move hs with
    | @attach u hphase =>
      obtain ⟨hstream, hunread⟩ := hu hphase
      rw [hunread, hstream] at hcount
      have hu : u = 0 := by simpa using hcount.symm
      refine ⟨rfl, ⟨rfl, le_rfl⟩, hu ▸ Nat.zero_le _, [], ?_, rfl⟩
      rw [hstream]
      exact List.take_nil.symm
    | close hl => simp at hl

theorem ConnectedSince.step {names : List String} {start : Nat} {d : Driver} (h : ConnectedSince names start d l)
    (hstep : l.step coalesced label = some l') (hlabel : label.isCut = false) :
    ConnectedSince names start d l' := by
  obtain ⟨taken, htaken, hdriver⟩ := h.applied
  have hunread := h.unread
  cases Link.move_of_step hstep with
  | pump hp => exact ⟨h.names_eq, h.since.mono (Pump.sent_grows hp), h.unread, taken, htaken, hdriver⟩
  | @sub _ sub' _ htake hs =>
    have hcount := Subscriber.step_unread hs htake
    have hmove := Subscriber.step_move hs
    obtain ⟨more, hmore⟩ := hmove.stream_grows
    have hlen : l.session.sub.stream.length ≤ sub'.stream.length := hmove.stream_grows.length_le
    have hsame : sub'.stream.length - sub'.unread = l.taken := by
      unfold Link.taken
      omega
    have hle : l.taken ≤ l.session.sub.stream.length := Nat.sub_le _ _
    refine ⟨h.names_eq, h.since.move (h.names_eq ▸ hmove), ?_, taken, ?_, hdriver⟩
    · show sub'.unread ≤ sub'.stream.length
      omega
    · show _ = sub'.stream.take (sub'.stream.length - sub'.unread)
      rw [hsame, ← hmore, List.take_append_of_le_length hle, htaken]
  | @deliver event now hpos hevent =>
    have hnext : l.session.sub.stream.length - (l.session.sub.unread - 1) = l.taken + 1 := by
      unfold Link.taken
      omega
    refine ⟨(Driver.names_apply now l.driver event).trans h.names_eq, h.since, ?_, taken ++ [(now, event)], ?_, ?_⟩
    · exact (Nat.sub_le _ _).trans hunread
    · show _ = l.session.sub.stream.take (l.session.sub.stream.length - (l.session.sub.unread - 1))
      rw [hnext, List.take_add_one, hevent, List.map_append, htaken]
      rfl
    · rw [List.foldl_append, ← hdriver]
      rfl
  | cut _ => cases hlabel
  | refused hphase =>
    have hsince := h.since
    simp only [Since, hphase] at hsince

/-- Until the next cut. -/
theorem ConnectedSince.run {names : List String} {start : Nat} {d : Driver}
    (h : ConnectedSince names start d x.link)
    (hrun : Relation.ReflTransGen (NamespaceFeed.Step coalesced ns fun label => label.isCut = false) x x') :
    ConnectedSince names start d x'.link := by
  induction hrun with
  | refl => exact h
  | tail _ hstep ih =>
    cases hstep with
    | written _ | skipped _ _ | lost => exact ih
    | told _ _ _ hl => exact ih.step hl rfl
    | moved hlabel _ hl => exact ih.step hl hlabel
    | replaced _ hcut _ => cases hcut

/-! ### What is read -/

/-- Events that are not stored under a name leave its store as it is. -/
theorem Driver.lookup_unstored (d : Driver) {n : String} : ∀ {es : List (Instant × ConfigEvent)},
    (∀ e ∈ es, storedFor n (.event e.1 e.2) = none) →
    (es.foldl (fun d e => d.apply e.1 e.2) d).stores.lookup n = d.stores.lookup n := by
  intro es
  induction es using List.reverseRecOn with
  | nil => exact fun _ => rfl
  | append_singleton es e ih =>
    intro h
    rw [List.foldl_append, List.foldl_cons, List.foldl_nil, Driver.lookup_apply,
      h e (List.mem_append_right _ (List.mem_singleton_self _)),
      ih fun e he => h e (List.mem_append_left _ he)]
    exact Option.map_id'

theorem Driver.mem_applied (d : Driver) (es : List (Instant × ConfigEvent)) (n : String) :
    n ∈ (es.foldl (fun d e => d.apply e.1 e.2) d).stores ↔ n ∈ d.stores := by
  induction es using List.reverseRecOn with
  | nil => exact Iff.rfl
  | append_singleton es e ih =>
    rw [List.foldl_append, List.foldl_cons, List.foldl_nil, ← AList.lookup_isSome, Driver.lookup_apply,
      Option.isSome_map, AList.lookup_isSome]
    exact ih

/-- The last event that is stored under a name is what is read. -/
theorem Driver.reads_last {d : Driver} {n : String} {pre post : List (Instant × ConfigEvent)}
    {e : Instant × ConfigEvent} {new : ConsumerSnapshot} (hn : n ∈ d.stores)
    (hnew : storedFor n (.event e.1 e.2) = some new)
    (hpost : ∀ e ∈ post, storedFor n (.event e.1 e.2) = none) :
    ((pre ++ e :: post).foldl (fun d e => d.apply e.1 e.2) d).stores.lookup n = some new := by
  obtain ⟨old, hold⟩ := Option.isSome_iff_exists.mp (AList.lookup_isSome.mpr ((d.mem_applied pre n).mpr hn))
  rw [List.foldl_append, List.foldl_cons, Driver.lookup_unstored _ hpost, Driver.lookup_apply, hold, hnew]
  rfl

/-- A frame since the attachment that passes the filter is in the stream, before those after it. -/
theorem ConnectedSince.stream_at {names : List String} {start : Nat} {d : Driver}
    (h : ConnectedSince names start d l) (hdrained : l.session.Drained) {before after : List BroadcastFrame}
    {f : BroadcastFrame} (hsplit : l.session.pump.pushed = before ++ f :: after) (hstart : start ≤ before.length)
    {n : String} (hn : n ∈ names) (hname : configEventName f.event = some n) :
    ∃ pre post, l.session.sub.stream = pre ++ f.event :: post ∧ ∀ e ∈ post, ∃ g ∈ after, g.event = e := by
  have hsince := h.since
  simp only [Since, hdrained.1] at hsince
  obtain ⟨base, slice, hfeed⟩ := hsince
  have hallowed : allowed (.ofNames names) [f.item] = [f.event] := by
    rw [allowed_singleton, if_pos]
    · rfl
    · rw [BroadcastFrame.item, filterAllowsEvent, hname]
      exact SubscribeFilter.ofNames_allow hn _
  refine ⟨base ++ allowed (.ofNames names) slice ++
    allowed (.ofNames names) ((before.drop start).map BroadcastFrame.item),
    allowed (.ofNames names) (after.map BroadcastFrame.item), ?_, fun e he => ?_⟩
  · rw [hfeed.drained hdrained, hsplit, List.drop_append_of_le_length hstart, List.map_append, List.map_cons,
      ← List.singleton_append, allowed_append, allowed_append, hallowed, ← List.append_assoc, List.singleton_append]
  · obtain ⟨it, hit, rfl⟩ := List.mem_map.mp he
    obtain ⟨g, hg, rfl⟩ := List.mem_map.mp (List.mem_of_mem_filter hit)
    exact ⟨g, hg, rfl⟩

/-- The last frame of a config, among those since the attachment, is what is read. -/
theorem ConnectedSince.reads {names : List String} {start : Nat} {d : Driver} (h : ConnectedSince names start d l)
    (hdrained : l.session.Drained) (hread : l.session.sub.unread = 0)
    (hns : ∀ f ∈ l.session.pump.pushed, ∀ p, f.brings = some p → p.1.ns = ns)
    {before after : List BroadcastFrame} {f : BroadcastFrame} {n : String} {cfg : Config}
    (hsplit : l.session.pump.pushed = before ++ f :: after) (hstart : start ≤ before.length)
    (hf : f.brings = some (⟨ns, n⟩, cfg)) (hafter : ∀ g ∈ after, ∀ other, g.brings ≠ some (⟨ns, n⟩, other))
    (hn : n ∈ names) (hstore : n ∈ d.stores) {new : Instant → ConsumerSnapshot}
    (hnew : ∀ now, snapshotFromProto now cfg = .ok (new now)) :
    ∃ now, l.driver.stores.lookup n = some (new now) := by
  obtain ⟨htype, hcfg, hkey⟩ := BroadcastFrame.brings_eq_some.mp hf
  have hname : cfg.name = n := (congrArg Key.name hkey).symm
  have hevent : configEventName f.event = some n := by
    rw [configEventName, hcfg, Option.map_some, hname]
  obtain ⟨pre, post, hstream, hpost⟩ := h.stream_at hdrained hsplit hstart hn hevent
  -- nothing after it is stored under this name
  have hother : ∀ e ∈ post, ∀ now, storedFor n (.event now e) = none := by
    intro e he now
    obtain ⟨g, hg, rfl⟩ := hpost e he
    refine Option.eq_none_iff_forall_ne_some.mpr fun new' hnew' => ?_
    obtain ⟨cfg', hcfg', hname', htype', -⟩ := storedFor_event.mp hnew'
    have hbrings : g.brings = some (⟨cfg'.ns, cfg'.name⟩, cfg') :=
      BroadcastFrame.brings_eq_some.mpr ⟨htype', hcfg', rfl⟩
    have hpushed : g ∈ l.session.pump.pushed := by
      rw [hsplit]
      exact List.mem_append_right _ (List.mem_cons_of_mem _ hg)
    have hsame : cfg'.ns = ns := hns g hpushed _ hbrings
    rw [hsame, hname'] at hbrings
    exact hafter g hg cfg' hbrings
  obtain ⟨taken, htaken, hdriver⟩ := h.applied
  rw [Link.taken, hread, Nat.sub_zero, List.take_length, hstream, List.map_eq_append_iff] at htaken
  obtain ⟨done, rest, rfl, -, hrest⟩ := htaken
  obtain ⟨e, later, rfl, he, hlater⟩ := List.map_eq_cons_iff.mp hrest
  refine ⟨e.1, hdriver ▸ Driver.reads_last hstore (storedFor_event.mpr ⟨cfg, ?_, hname, ?_, hnew e.1⟩)
    fun e' he' => hother e'.2 (hlater ▸ List.mem_map_of_mem he') e'.1⟩
  · rw [he, hcfg]
  · rw [he]
    exact htype

/-! ### A connection that is not cut catches up -/

/-- The receiver is bridged and in time, and what is unread is in the channel. -/
structure Link.Bridged (l : Link) : Prop where
  phase : l.session.sub.phase = .bridging
  behind : l.session.sub.next ≤ l.session.pump.sent.length
  inTime : l.session.pump.sent.length - l.session.sub.next ≤ BROADCAST_CAPACITY
  unread : l.session.sub.unread ≤ l.session.sub.stream.length

/-- The driver has taken everything that was pushed. -/
structure Link.AllTaken (l : Link) : Prop where
  drained : l.session.Drained
  unread : l.session.sub.unread = 0

/-- What is ahead of the driver.  A frame of the batch is flushed, sent, received and taken. -/
def Link.ahead (l : Link) : ℕ :=
  4 * l.session.pump.batch.length + 3 * l.session.pump.flushing.length +
    2 * (l.session.pump.sent.length - l.session.sub.next) + l.session.sub.unread

theorem Link.Bridged.takes (coalesced : Bool) (h : l.Bridged) (hpos : 0 < l.session.sub.unread) :
    ∃ l', l.step coalesced (.deliver 0) = some l' ∧ l'.Bridged ∧ l'.ahead < l.ahead := by
  have hle := h.unread
  have hlt : l.taken < l.session.sub.stream.length := by
    unfold Link.taken
    omega
  have hstep : l.step coalesced (.deliver 0) = some
      { l with session := { l.session with sub := { l.session.sub with unread := l.session.sub.unread - 1 } },
               driver := l.driver.apply 0 l.session.sub.stream[l.taken] } := by
    simp only [Link.step, Session.step, Subscriber.step, if_pos hpos, Option.map_some,
      List.getElem?_eq_getElem hlt]
  refine ⟨_, hstep, ⟨h.phase, h.behind, h.inTime, (Nat.sub_le _ _).trans hle⟩, ?_⟩
  simp only [Link.ahead]
  omega

/-- An empty channel takes what the receiver gets. -/
theorem Link.Bridged.receives (coalesced : Bool) (h : l.Bridged) (hunread : l.session.sub.unread = 0)
    (hlt : l.session.sub.next < l.session.pump.sent.length) :
    ∃ l', l.step coalesced (.server (.sub .recv)) = some l' ∧ l'.Bridged ∧ l'.ahead < l.ahead := by
  obtain ⟨hphase, -, hinTime, -⟩ := h
  have hget := List.getElem?_eq_getElem hlt
  have hlag : ¬BROADCAST_CAPACITY < l.session.pump.sent.length - l.session.sub.next := not_lt.mpr hinTime
  have hroom : l.session.sub.unread < CHANNEL_CAPACITY := by
    rw [hunread]
    decide
  by_cases hallow : filterAllowsEvent (.ofNames l.driver.names) l.session.pump.sent[l.session.sub.next].event
      l.session.pump.sent[l.session.sub.next].labels = true
  · refine ⟨{ l with session := { l.session with sub := { l.session.sub with
      next := l.session.sub.next + 1
      stream := l.session.sub.stream ++ [l.session.pump.sent[l.session.sub.next].event]
      unread := l.session.sub.unread + 1 } } }, ?_, ⟨hphase, hlt, ?_, ?_⟩, ?_⟩
    · simp [Link.step, Session.step, Subscriber.step, hphase, hget, hlag, hallow, Subscriber.trySend, hroom,
        foundSnapshot]
    all_goals
      simp only [Link.ahead, List.length_append, List.length_singleton]
      omega
  · refine ⟨{ l with session := { l.session with sub := { l.session.sub with next := l.session.sub.next + 1 } } },
      ?_, ⟨hphase, hlt, ?_, ?_⟩, ?_⟩
    · simp [Link.step, Session.step, Subscriber.step, hphase, hget, hlag, hallow, foundSnapshot]
    all_goals
      simp only [Link.ahead]
      omega

/-- The next frame is flushed or sent, unless there is none. -/
theorem Link.Bridged.sends (coalesced : Bool) (h : l.Bridged) (hunread : l.session.sub.unread = 0)
    (hnext : l.session.sub.next = l.session.pump.sent.length) : l.AllTaken ∨
    ∃ label l', (label = .elapsed ∨ label = .send) ∧ l.step coalesced (.server (.pump label)) = some l' ∧
      l'.Bridged ∧ l'.ahead < l.ahead := by
  cases hflush : l.session.pump.flushing with
  | cons f rest =>
    refine .inr ⟨.send, { l with session := { l.session with pump := { l.session.pump with
      flushing := rest, sent := l.session.pump.sent ++ [f] } } }, .inr rfl, ?_, ⟨h.phase, ?_, ?_, h.unread⟩, ?_⟩
    · simp [Link.step, Session.step, Pump.step, hflush, foundSnapshot]
    all_goals
      simp only [Link.ahead, List.length_append, List.length_cons, List.length_nil, hflush, BROADCAST_CAPACITY]
      omega
  | nil =>
    cases hbatch : l.session.pump.batch with
    | nil =>
      refine .inl ⟨⟨h.phase, ?_⟩, hunread⟩
      rw [hnext, Pump.pushed, hflush, hbatch, List.append_nil, List.append_nil]
    | cons f rest =>
      refine .inr ⟨.elapsed, { l with session := { l.session with pump := { l.session.pump with
        batch := [], flushing := f :: rest } } }, .inl rfl, ?_, ⟨h.phase, h.behind, h.inTime, h.unread⟩, ?_⟩
      · simp [Link.step, Session.step, Pump.step, hflush, hbatch, foundSnapshot]
      · simp only [Link.ahead, hflush, hbatch, List.length_cons, List.length_nil]
        omega

/-- One of these steps can be made, unless everything is taken. -/
theorem Link.Bridged.advances (coalesced : Bool) (h : l.Bridged) : l.AllTaken ∨
    ∃ label l', label.isCut = false ∧ label.isWatch = false ∧ l.step coalesced label = some l' ∧ l'.Bridged ∧
      l'.ahead < l.ahead := by
  rcases Nat.eq_zero_or_pos l.session.sub.unread with hunread | hpos
  · rcases h.behind.eq_or_lt with hnext | hlt
    · rcases h.sends coalesced hunread hnext with htaken | ⟨label, l', hlabel, hstep, hl'⟩
      · exact .inl htaken
      · refine .inr ⟨_, l', rfl, ?_, hstep, hl'⟩
        rcases hlabel with rfl | rfl
        · rfl
        · rfl
    · obtain ⟨l', hstep, hl'⟩ := h.receives coalesced hunread hlt
      exact .inr ⟨_, l', rfl, rfl, hstep, hl'⟩
  · obtain ⟨l', hstep, hl'⟩ := h.takes coalesced hpos
    exact .inr ⟨_, l', rfl, rfl, hstep, hl'⟩

/-- Everything can be taken before anything else happens. -/
theorem NamespaceFeed.drains (coalesced : Bool) (ns : String) (h : x.link.Bridged) :
    ∃ l', Relation.ReflTransGen (NamespaceFeed.Step coalesced ns fun label => label.isCut = false) x
      { x with link := l' } ∧ l'.Bridged ∧ l'.AllTaken := by
  induction hahead : x.link.ahead using Nat.strongRecOn generalizing x with
  | ind n ih =>
    rcases h.advances coalesced with htaken | ⟨label, l', hcut, hwatch, hstep, hbridged, hlt⟩
    · exact ⟨x.link, .refl, h, htaken⟩
    · obtain ⟨l'', hrun, hl''⟩ := ih l'.ahead (hahead ▸ hlt) (x := { x with link := l' }) hbridged rfl
      exact ⟨l'', .head (.moved hcut hwatch hstep) hrun, hl''⟩

omit [SerdeJson] in
theorem Link.AllTaken.flushing (h : l.AllTaken) (hbehind : l.session.sub.next ≤ l.session.pump.sent.length) :
    l.session.pump.flushing = [] := by
  have hnext := h.drained.2
  rw [Pump.pushed, List.length_append, List.length_append] at hnext
  exact List.eq_nil_of_length_eq_zero (by omega)

/-- Steps of the link alone. -/
theorem NamespaceFeed.of_run {labels : List LinkLabel}
    (hmay : ∀ label ∈ labels, label.isCut = false ∧ label.isWatch = false) {l' : Link}
    (h : Lib.run (Link.step coalesced) x.link labels = some l') :
    Relation.ReflTransGen (NamespaceFeed.Step coalesced ns fun label => label.isCut = false) x
      { x with link := l' } := by
  induction labels generalizing x with
  | nil =>
    cases h
    exact .refl
  | cons label labels ih =>
    obtain ⟨l₁, hstep, hrest⟩ := Option.bind_eq_some_iff.mp h
    obtain ⟨hcut, hwatch⟩ := hmay label List.mem_cons_self
    exact .head (.moved hcut hwatch hstep)
      (ih (x := { x with link := l₁ }) (fun label' hmem => hmay label' (List.mem_cons_of_mem _ hmem)) hrest)

/-- A call of konfig that is answered, with what others do before. -/
theorem NamespaceFeed.answered {s' : Etcd} {o : KubeOp} {r : o.Resp} (h : Etcd.Answer x.store o r s') :
    Relation.ReflTransGen (NamespaceFeed.Step coalesced ns may) x { x with store := s' } :=
  h.written.lift (fun s => { x with store := s }) fun _ _ hw => .written hw

/-- Whatever the stream can deliver is taken. -/
theorem NamespaceFeed.drains_nexts {s : Etcd} {pos pos' : Position Key}
    (hnexts : Relation.ReflTransGen (Position.Next s (selectsNamespace ns)) pos pos') {l : Link} (h : l.Bridged)
    (htaken : l.AllTaken) :
    ∃ l', Relation.ReflTransGen (NamespaceFeed.Step coalesced ns fun label => label.isCut = false)
      ⟨s, pos, l, true⟩ ⟨s, pos', l', true⟩ ∧ l'.Bridged ∧ l'.AllTaken := by
  induction hnexts with
  | refl => exact ⟨l, .refl, h, htaken⟩
  | @tail mid last _ hnext ih =>
    obtain ⟨l₁, hrun, h₁, htaken₁⟩ := ih
    obtain ⟨event, hdel⟩ := hnext
    cases event with
    | none => exact ⟨l₁, hrun.tail (.skipped rfl hdel), h₁, htaken₁⟩
    | some event =>
      obtain ⟨p', hp, hsent⟩ := Pump.takes_event coalesced (htaken₁.flushing h₁.behind) event
      have hstep : l₁.step coalesced (.server (.pump (.watch event 0))) = some
          { l₁ with session := { l₁.session with pump := p' } } := by
        simp [Link.step, Session.step, hp, foundSnapshot]
      have h₂ : Link.Bridged { l₁ with session := { l₁.session with pump := p' } } :=
        ⟨h₁.phase, hsent ▸ h₁.behind, hsent ▸ h₁.inTime, h₁.unread⟩
      obtain ⟨l₃, hrun₃, h₃⟩ := NamespaceFeed.drains (x := ⟨s, last, _, true⟩) coalesced ns h₂
      exact ⟨l₃, (hrun.tail (.told 0 rfl hdel hstep)).trans hrun₃, h₃⟩

theorem ConnectedSince.bridged {names : List String} {start : Nat} {d : Driver} (h : ConnectedSince names start d l)
    (hphase : l.session.sub.phase = .bridging)
    (hinTime : l.session.pump.sent.length - l.session.sub.next ≤ BROADCAST_CAPACITY) : l.Bridged := by
  have hsince := h.since
  simp only [Since, Feed, hphase] at hsince
  obtain ⟨-, -, -, hbehind, -⟩ := hsince
  exact ⟨hphase, hbehind, hinTime, h.unread⟩

omit [SerdeJson] in
/-- A config of the last revision that was told has a frame, and that is the last one of it. -/
theorem NamespaceFeed.Inv.last_frame (h : x.Inv ns) {n : String} {r : ℕ} (hpos : x.pos = .watching r)
    {obj : DynamicObject} {snap : ConfigSnapshot} (hobj : x.store.asOf r ⟨ns, n⟩ = some obj)
    (hparse : parseConfigObject 0 obj = some snap) :
    ∃ before f after, x.pushed = before ++ f :: after ∧ f.brings = some (⟨ns, n⟩, snapshotToProto 0 snap) ∧
      ∀ g ∈ after, ∀ other, g.brings ≠ some (⟨ns, n⟩, other) := by
  obtain ⟨m, -, hstored, -⟩ := h.dated.stored r ⟨ns, n⟩ obj hobj
  obtain ⟨hkey, -⟩ := hstored.parsed hparse
  have hreads : broadcastReader.read obj = some (⟨ns, n⟩, snapshotToProto 0 snap) := by
    rw [← hkey]
    exact congrArg (Option.map fun snap : ConfigSnapshot => (snap.key, snapshotToProto 0 snap)) hparse
  have hsel : x.store.selected (selectsNamespace ns) r ⟨ns, n⟩ = some obj :=
    Revisions.selected_eq_some.mpr ⟨hobj, decide_eq_true rfl⟩
  exact framesView_eq_some (h.follows.current hpos hsel hreads)

/-- **A connected consumer follows the API server.**  Whatever was sent before, by this watcher and by
those that were lost, a connection that is attached and not cut brings all that is new: a consumer that
has taken everything reads each of its configs of the last revision told as it is, under its resource
version and not marked stale, if it was written since the attachment, or if this watcher broadcast
nothing before.  While the stream is not lost, a consumer that is bridged and in time can come to the
last revision, if nobody writes. -/
theorem connected_follows {s : Etcd} {d : Driver} (hs : s.Dated) (hd : d.Tracks) {x₁ : NamespaceFeed} {l₂ : Link}
    (h₁ : Relation.ReflTransGen (NamespaceFeed.Step coalesced ns fun _ => True) (.start s d) x₁)
    (hattach : x₁.link.step coalesced (.server (.sub .attach)) = some l₂)
    (h : Relation.ReflTransGen (NamespaceFeed.Step coalesced ns fun label => label.isCut = false)
      { x₁ with link := l₂ } x) :
    (x.link.session.Drained → x.link.session.sub.unread = 0 → ∀ n ∈ x.link.driver.names, ∀ r obj snap now,
      x.pos = .watching r → x.store.asOf r ⟨ns, n⟩ = some obj → parseConfigObject now obj = some snap →
      ContentReadsBack snap.content → (x₁.pushed = [] ∨ x₁.store.rev < revisionOf snap.resourceVersion) →
      ∃ got, x.link.driver.stores.lookup n = some got ∧ got.content = snap.content ∧
        got.schemaVersion = snap.schemaVersion ∧ got.resourceVersion = snap.resourceVersion ∧
        got.staleSince = none) ∧
    (x.live = true → x.link.session.sub.phase = .bridging →
      x.link.session.pump.sent.length - x.link.session.sub.next ≤ BROADCAST_CAPACITY →
      ∃ y, Relation.ReflTransGen (NamespaceFeed.Step coalesced ns fun label => label.isCut = false) x y ∧
        y.store = x.store ∧ y.link.driver.names = x.link.driver.names ∧ y.pos = .watching y.store.rev ∧
        y.link.session.Drained ∧ y.link.session.sub.unread = 0) := by
  have hinv₁ := ((NamespaceFeed.inv_start hs hd ns).run h₁).1
  have hstep : NamespaceFeed.Step coalesced ns (fun _ => True) x₁ { x₁ with link := l₂ } :=
    .moved trivial rfl hattach
  obtain ⟨hinv, hprefix⟩ := (hinv₁.step hstep).1.run h
  have hprefix := hprefix fun _ hmay => hmay
  have hattached := (connectedSince_attach hattach hinv₁.early).run h
  refine ⟨fun hdrained hread n hn r obj snap now hpos hobj hparse hback hnew => ?_,
    fun hlive hphase hinTime => ?_⟩
  · obtain ⟨snap₀, hparse₀, rfl⟩ := Option.map_eq_some_iff.mp ((parseConfigObject_at now obj).symm.trans hparse)
    obtain ⟨before, f, after, hsplit, hf, hafter⟩ := hinv.last_frame hpos hobj hparse₀
    have hpushed : { x₁ with link := l₂ }.pushed = x₁.pushed := (Link.move_of_step hattach).pushed_eq rfl
    rw [hpushed] at hprefix
    have hlate : f ∉ x₁.pushed := by
      intro hmem
      rcases hnew with hempty | hlater
      · rw [hempty] at hmem
        cases hmem
      · exact absurd (hinv₁.within f hmem _ hf).2 (not_le.mpr hlater)
    have hstart : x₁.link.session.pump.sent.length ≤ before.length :=
      x₁.link.session.pump.sent_pushed.length_le.trans (prefix_length_le (hsplit ▸ hprefix) hlate)
    have hnames : n ∈ x₁.link.driver.names := hattached.names_eq ▸ hn
    obtain ⟨t, hgot⟩ := hattached.reads hdrained hread (fun f hf p hp => (hinv.within f hf p hp).1) hsplit hstart
      hf hafter hnames ((hinv₁.tracks n).mpr hnames) fun t => snapshotFromProto_snapshotToProto hback t 0
    exact ⟨_, hgot, rfl, rfl, rfl, rfl⟩
  · obtain ⟨l', hrun, hbridged, htaken⟩ := NamespaceFeed.drains coalesced ns (hattached.bridged hphase hinTime)
    have hnexts := hinv.follows.told.tells_all hinv.dated.sequential
    obtain ⟨l'', hrun', -, htaken'⟩ := NamespaceFeed.drains_nexts hnexts hbridged htaken
    have hall := (hlive ▸ hrun).trans hrun'
    have hnames := ((hattached.run hall).names_eq).trans hattached.names_eq.symm
    exact ⟨⟨x.store, .watching x.store.rev, l'', true⟩, hall, rfl, hnames, rfl, htaken'.drained, htaken'.unread⟩

end

/-! ### A consumer of `trading/limits` -/

section Limits

/-- It reads the empty object. -/
local instance limitsText : SerdeJson where
  fromStr s := if s = "\x7b\x7d" then .ok defaultContent else .error "expected value"
  fromValueError _ := "invalid type"

/-- The consumer's subscription with its receiver in a phase. -/
def limitsLink (phase : Phase) : Link :=
  { session := ⟨.new, { Subscriber.new "" with phase }⟩, driver := .new ["limits"] 0, snapshot := [] }

/-- The consumer loses a watcher and connects to the next; then `limits` is written, told and read. -/
theorem connected_follows_limits : ∃ y got,
    Relation.ReflTransGen (NamespaceFeed.Step false "trading" fun label => label.isCut = false)
      ⟨noConfigs, .lost, limitsLink .attached, true⟩ y ∧
    y.link.driver.stores.lookup "limits" = some got ∧ got.content = defaultContent ∧ got.schemaVersion = 5 ∧
    got.resourceVersion = "1" ∧ got.staleSince = none := by
  have hdated : noConfigs.Dated := dated_empty _
  -- the stream of the first watcher is lost before it has told anything
  have hcut : (limitsLink .connecting).step false (.cut false 0) = some (limitsLink .connecting) := rfl
  have hreplaced : NamespaceFeed.Step false "trading" (fun _ => True)
      ⟨noConfigs, .lost, limitsLink .connecting, false⟩ (.start noConfigs (limitsLink .connecting).driver) := .replaced rfl trivial hcut
  have hlost : Relation.ReflTransGen (NamespaceFeed.Step false "trading" fun _ => True)
      (.start noConfigs (.new ["limits"] 0)) (.start noConfigs (.new ["limits"] 0)) :=
    .tail (.single .lost) hreplaced
  have hattach : (limitsLink .connecting).step false (.server (.sub .attach)) = some (limitsLink .attached) := rfl
  let s := noConfigs.write limitsKey (some (limitsAt 1 ⟨5, defaultContent⟩))
  have hwritten : Etcd.Answer noConfigs (.patch limitsKey (patchBody limitsKey ⟨5, defaultContent⟩ none))
      (.ok (limitsAt 1 ⟨5, defaultContent⟩)) s := .patched (limitsAt_applied 1 ⟨5, defaultContent⟩)
  have hsteps : run (Link.step false) (limitsLink .attached)
      [.server (.sub (.lookup 0)), .server (.sub (.readCache [] 0)), .server (.sub .readBuffer),
        .server (.sub .emit)] = some (limitsLink .bridging) := rfl
  have hbridged : Relation.ReflTransGen (NamespaceFeed.Step false "trading" fun label => label.isCut = false)
      ⟨noConfigs, .lost, limitsLink .attached, true⟩ ⟨s, .lost, limitsLink .bridging, true⟩ :=
    (NamespaceFeed.of_run (by decide) hsteps).trans (NamespaceFeed.answered hwritten)
  obtain ⟨-, hcomes⟩ := connected_follows hdated (Driver.tracks_new ["limits"] 0) hlost hattach hbridged
  obtain ⟨y, hrun, hstore, hnames, hpos, hdrained, hread⟩ := hcomes rfl rfl (Nat.zero_le _)
  obtain ⟨hreads, -⟩ :=
    connected_follows hdated (Driver.tracks_new ["limits"] 0) hlost hattach (hbridged.trans hrun)
  have hmem : "limits" ∈ y.link.driver.names := hnames ▸ List.mem_singleton_self _
  have hat : y.store.asOf 1 ⟨"trading", "limits"⟩ = some (limitsAt 1 ⟨5, defaultContent⟩) := by
    rw [hstore]
    rfl
  have hback : ContentReadsBack defaultContent := by
    constructor
    · decide
    · rfl
  obtain ⟨got, hgot, hcontent, hversion, hrv, hfresh⟩ :=
    hreads hdrained hread "limits" hmem 1 _ _ 0 (hpos.trans (hstore ▸ rfl)) hat rfl hback (.inl rfl)
  exact ⟨y, got, hbridged.trans hrun, hgot, hcontent, hversion, hrv, hfresh⟩

end Limits

end Konfig
