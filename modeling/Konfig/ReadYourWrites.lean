import Konfig.FollowsStore
import Konfig.Service.BatchAudit

/-!
# What was written is read

One replica: the write calls in progress, the API server that they talk to and that others
write to as well, and the config cache that follows it (`CacheFeed`).  A write that was
answered is a revision of the history; from when the stream has told this revision, a `Get`
answers it or a later one, through every loss of the stream.

* `Call.Acknowledged`: a call has answered that it wrote a config under a resource version.
* `Call.acknowledged_patched`: it was accepted under this resource version.
* `Site.Step`: an exchange of a call, or a step of the feed.
* `read_your_writes`: what was answered is what is read.
-/

namespace Konfig

open Lib Proc

/-! ### Answered writes -/

/-- A spec was accepted under a resource version. -/
def KubeTrace.PatchedUnder (tr : KubeTrace) (key : Key) (spec : ConfigSpec) (rv : String) : Prop :=
  ∃ tp obj, accepted key (patchBody key spec tp) obj ∈ tr ∧ rv = obj.metadata.resourceVersion.getD ""

theorem KubeTrace.PatchedUnder.mono {tr tr' : KubeTrace} {key : Key} {spec : ConfigSpec} {rv : String}
    (h : KubeTrace.PatchedUnder tr key spec rv) (hsub : ∀ e ∈ tr, e ∈ tr') :
    KubeTrace.PatchedUnder tr' key spec rv := by
  obtain ⟨tp, obj, hmem, hrv⟩ := h
  exact ⟨tp, obj, hsub _ hmem, hrv⟩

theorem applySpec_patched {key : Key} {spec : ConfigSpec} {tp : Option String} {tr : KubeTrace}
    {resp : ApplyResponse} (h : Ends (applySpec key spec tp) tr (.ok resp)) :
    KubeTrace.PatchedUnder tr key spec resp.resourceVersion := by
  obtain ⟨a, c, errs, obj, -, -, rfl, rfl⟩ := applySpec_ends_ok h
  exact ⟨tp, obj, List.mem_cons_of_mem _ (List.mem_append_right _ (List.mem_singleton_self _)), rfl⟩

/-- Every result of a batch is an accepted item. -/
theorem applyItems_patched {tp : Option String} : ∀ {items : List BatchItem} {tr : KubeTrace}
    {results : List BatchApplyResult}, Ends (applyItems tp items) tr (.ok results) →
      ∀ res ∈ results, ∃ item ∈ items, item.key = res.key ∧
        KubeTrace.PatchedUnder tr res.key item.spec res.resourceVersion := by
  intro items
  induction items with
  | nil =>
    intro tr results h res hres
    obtain ⟨-, hr⟩ := ends_pure.mp h
    cases hr
    exact absurd hres List.not_mem_nil
  | cons item items ih =>
    intro tr results h res hres
    rw [applyItems, ends_bind] at h
    rcases h with ⟨e, he, -⟩ | ⟨tr₁, tr₂, resp, rfl, h₁, h₂⟩
    · cases he
    obtain ⟨r', hr', hitems⟩ := ends_bind_pure.mp h₂
    cases r' with
    | error e => cases hr'
    | ok results' =>
      cases hr'
      rcases List.mem_cons.mp hres with rfl | hres
      · exact ⟨item, List.mem_cons_self, rfl,
          (applySpec_patched h₁).mono fun e he => List.mem_append_left _ he⟩
      · obtain ⟨item', hitem', hkey, hpatched⟩ := ih hitems res hres
        exact ⟨item', List.mem_cons_of_mem _ hitem', hkey,
          hpatched.mono fun e he => List.mem_append_right _ he⟩

section Calls

variable [JsonSchema]

/-- A call has answered that it wrote a config under a resource version. -/
inductive Call.Acknowledged : Call → Reply → Key → String → Prop
  | applied {table : SchemaTable} {req : ApplyRequest} {tp : Option String} {resp : ApplyResponse} :
      Acknowledged (.apply table req tp) (.applied resp) req.key resp.resourceVersion
  | batchApplied {table : SchemaTable} {reqs : List ApplyRequest} {tp : Option String}
      {results : List BatchApplyResult} {res : BatchApplyResult} : res ∈ results →
      Acknowledged (.batchApply table reqs tp) (.batchApplied results) res.key res.resourceVersion
  | reverted {req : RevertRequest} {tp : Option String} {resp : RevertResponse} :
      Acknowledged (.revert req tp) (.reverted resp) req.key resp.resourceVersion

variable [SerdeYaml] [SerdeJson]

/-- The content that a config had at a revision that there was. -/
def Etcd.Held (s : Etcd) (n : ℕ) (key : Key) (content : Value) : Prop :=
  n ≤ s.rev ∧ ∃ obj, s.asOf n key = some obj ∧
    ∀ loaded, ∃ snap, parseConfigObject loaded obj = some snap ∧ snap.content = content

/-- What it wrote: the document that it was given, or the content of the revision that it names under
the version that it answers. -/
inductive Call.Sent (s : Etcd) : Call → Reply → Key → ConfigSpec → Prop
  | given {call : Call} {reply : Reply} {key : Key} {spec : ConfigSpec} : call.Given key spec →
      Sent s call reply key spec
  | restored {req : RevertRequest} {tp : Option String} {resp : RevertResponse} {n : ℕ} {content : Value} :
      parseU64 req.toResourceVersion = some n → s.Held n req.key content →
      Sent s (.revert req tp) (.reverted resp) req.key ⟨resp.schemaVersion, content⟩

omit [JsonSchema] [SerdeYaml] in
/-- What a `Revert` that succeeds takes from the history. -/
theorem held_of_listed {s : Etcd} {req : RevertRequest} {items : List DynamicObject} {old : DynamicObject}
    {historical : ConfigSpec} (hshown : Shown s (.list req.key.ns req.key.name req.toResourceVersion) (.ok items))
    (hold : items.find? (fun o => o.metadata.name == some req.key.name) = some old)
    (hparse : parseHistoricalObj old = .ok historical) :
    ∃ n, parseU64 req.toResourceVersion = some n ∧ s.Held n req.key historical.content := by
  cases hshown with
  | @listed ns name rv n hn hle =>
    have hat : s.asOf n req.key = some old := Option.mem_toList.mp (List.mem_of_find?_eq_some hold)
    refine ⟨n, hn, hle, old, hat, fun loaded => ?_⟩
    exact ⟨_, parseConfigObject_of_spec (parseHistoricalObj_ok hparse) loaded, rfl⟩

/-- **What was answered was accepted.** -/
theorem Call.acknowledged_patched {s : Etcd} {call : Call} {reply : Reply} {key : Key} {rv : String}
    {tr : KubeTrace} (hack : call.Acknowledged reply key rv) (h : Ends call.handle tr (.ok reply))
    (hshown : ∀ e ∈ tr, Shown s e.1 e.2) :
    ∃ spec, call.Sent s reply key spec ∧ KubeTrace.PatchedUnder tr key spec rv := by
  cases hack with
  | @applied table req tp resp =>
    obtain ⟨r, hr, hends⟩ := ends_bind_pure.mp h
    cases r with
    | error e => cases hr
    | ok resp' =>
      cases hr
      rcases handleApply_ends hends with ⟨-, ⟨st, hst⟩, -⟩ | ⟨spec, hyaml, hvalid, hspec⟩
      · cases hst
      · exact ⟨spec, .given ⟨rfl, hyaml, validateAgainstSchema_ok.mp hvalid⟩, applySpec_patched hspec⟩
  | @batchApplied table reqs tp results res hres =>
    obtain ⟨r, hr, hends⟩ := ends_bind_pure.mp h
    cases r with
    | error e => cases hr
    | ok results' =>
      cases hr
      rcases handleBatchApply_ends hends with ⟨-, ⟨st, hst⟩, -⟩ | ⟨items, hparsed, hcase⟩
      · cases hst
      rcases hcase with ⟨st, hst, -⟩ | ⟨tr₁, tr₂, currents, rfl, -, hcase⟩
      · cases hst
      rcases hcase with ⟨st, -, -, hst⟩ | ⟨-, hitems⟩
      · cases hst
      obtain ⟨item, hitem, hkey, hpatched⟩ := applyItems_patched hitems res hres
      have hmem : item ∈ items := (perm_sortBatchItems items).mem_iff.mp hitem
      have hreq : some item ∈ reqs.map BatchItem.ofRequest := hparsed.parsed ▸ List.mem_map_of_mem hmem
      obtain ⟨req, hreq, hof⟩ := List.mem_map.mp hreq
      obtain ⟨hkey', hyaml⟩ := BatchItem.ofRequest_eq.mp hof
      have hvalid := hparsed.valid item hmem
      rw [hkey] at hkey' hvalid
      exact ⟨item.spec, .given ⟨req, hreq, hkey'.symm, hyaml, hvalid⟩,
        hpatched.mono fun e he => List.mem_append_right _ he⟩
  | @reverted req tp resp =>
    obtain ⟨r, hr, hends⟩ := ends_bind_pure.mp h
    cases r with
    | error e => cases hr
    | ok resp' =>
      cases hr
      obtain ⟨items, old, historical, a, current, tr₁, r, rfl, hold, hparse, hspec, hrv, -⟩ :=
        handleRevert_ends_ok hends
      obtain ⟨n, hn, hheld⟩ := held_of_listed (hshown _ List.mem_cons_self) hold hparse
      rw [hrv]
      exact ⟨_, .restored hn hheld, (applySpec_patched hspec).mono
        fun e he => List.mem_cons_of_mem _ (List.mem_cons_of_mem _ he)⟩

end Calls

/-! ### The history -/

theorem StoredAs.unique {m m' : ℕ} {key key' : Key} {metadata : ObjectMeta} (h : StoredAs m key metadata)
    (h' : StoredAs m' key' metadata) : m = m' := by
  have hrv := congrArg revisionOf (Option.some.inj (h.rv.symm.trans h'.rv))
  rwa [revisionOf_toString, revisionOf_toString] at hrv

/-- A revision of a config is a spec that was applied. -/
def Etcd.WroteAt (s : Etcd) (m : ℕ) (key : Key) (spec : ConfigSpec) : Prop :=
  ∃ tp obj, AppliedAs m key (patchBody key spec tp) obj ∧ m ≤ s.rev ∧ s.asOf m key = some obj

theorem Etcd.WroteAt.mono {s s' : Etcd} {m : ℕ} {key : Key} {spec : ConfigSpec} (h : s.WroteAt m key spec)
    (hext : s.Extends s') : s'.WroteAt m key spec := by
  obtain ⟨tp, obj, happ, hm, hat⟩ := h
  exact ⟨tp, obj, happ, hm.trans hext.rev, (hext.asOf hm key).trans hat⟩

/-! ### The feed -/

variable {sel : Key → DynamicObject → Bool}

namespace CacheFeed

variable {x x' : CacheFeed}

theorem extends_step (h : x.Inv) (hstep : x.Step sel x') : x.store.Extends x'.store := by
  cases hstep with
  | written hw => exact (h.dated.written hw).1
  | told htold =>
    cases htold with
    | told _ _ _ => exact .refl _
  | errored _ | ended _ => exact .refl _

theorem extends_run (h : x.Inv) (hrun : Relation.ReflTransGen (CacheFeed.Step sel) x x') :
    x.store.Extends x'.store := by
  induction hrun with
  | refl => exact .refl _
  | tail hprior hstep ih => exact ih.trans (extends_step (follows_run h hprior).1 hstep)

/-- No answer is older than an earlier one. -/
theorem forward (h : x.Inv) (hf : x.follower.Inv configReader sel)
    (hrun : Relation.ReflTransGen (CacheFeed.Step sel) x x') {key : Key} {got : ConfigSnapshot}
    (hgot : x.watcher.cache.get key = some got) :
    ∃ got', x'.watcher.cache.get key = some got' ∧
      revisionOf got.resourceVersion ≤ revisionOf got'.resourceVersion := by
  obtain ⟨-, hbefore⟩ := hf.run (follows_run h hrun).2
  obtain ⟨shown', hshown', hrank⟩ := hbefore key got.timeless (congrArg (Option.map _) hgot)
  obtain ⟨got', hgot', rfl⟩ := Option.map_eq_some_iff.mp hshown'
  exact ⟨got', hgot', hrank⟩

/-- What is served shows a revision that there was. -/
theorem cached_rev (h : x.Inv) (hf : x.follower.Inv configReader sel) {key : Key} {got : ConfigSnapshot}
    (hgot : x.watcher.cache.get key = some got) :
    got.resourceVersion = toString (revisionOf got.resourceVersion) ∧
      revisionOf got.resourceVersion ≤ x.store.rev := by
  obtain ⟨⟨n, hn, obj, hobj, hparse⟩, hrv⟩ := cached_stored h hf hgot
  obtain ⟨m, hm, hstored, -⟩ := h.dated.stored n key obj (Revisions.selected_eq_some.mp hobj).1
  have hrv' : got.resourceVersion = toString m := (hstored.parsed hparse).2
  refine ⟨hrv, ?_⟩
  rw [hrv', revisionOf_toString]
  exact hm.trans hn

/-- The revision that was written is read as it was sent. -/
theorem own_write (h : x.Inv) (hf : x.follower.Inv configReader sel) {m : ℕ} {key : Key} {spec : ConfigSpec}
    {got : ConfigSnapshot} (hwrote : x.store.WroteAt m key spec) (hgot : x.watcher.cache.get key = some got)
    (hrv : got.resourceVersion = toString m) :
    got.content = spec.content ∧ got.schemaVersion = spec.schemaVersion := by
  obtain ⟨tp, obj, happ, -, hat⟩ := hwrote
  obtain ⟨n, -, obj', hobj', hparse⟩ := (cached_stored h hf hgot).1
  obtain ⟨m', hle, hstored, hsame⟩ := h.dated.stored n key obj' (Revisions.selected_eq_some.mp hobj').1
  have hm : m = m' := by
    have hrv' : got.resourceVersion = toString m' := (hstored.parsed hparse).2
    rw [← revisionOf_toString m, ← hrv, hrv', revisionOf_toString]
  subst hm
  obtain rfl : obj = obj' := Option.some.inj (hat.symm.trans (hsame m le_rfl hle))
  have hread := Option.some.inj ((happ.parse got.loadedAt).symm.trans hparse)
  exact ⟨(congrArg ConfigSnapshot.content hread).symm, (congrArg ConfigSnapshot.schemaVersion hread).symm⟩

/-- Once the stream has told a revision that was written, it or a later one is served. -/
theorem told_write (h : x.Inv) (hf : x.follower.Inv configReader sel) {m r : ℕ} {key : Key} {spec : ConfigSpec}
    {obj : DynamicObject} {snap : ConfigSnapshot} {loaded : Instant} (hwrote : x.store.WroteAt m key spec)
    (hpos : x.pos = .watching r) (hmr : m ≤ r) (hobj : x.store.selected sel r key = some obj)
    (hparse : parseConfigObject loaded obj = some snap) :
    ∃ got, x.watcher.cache.get key = some got ∧ m ≤ revisionOf got.resourceVersion := by
  obtain ⟨got, hgot, -, hloaded⟩ := current h hf hpos hobj hparse
  obtain ⟨m', -, hstored, hsame⟩ := h.dated.stored r key obj (Revisions.selected_eq_some.mp hobj).1
  obtain ⟨tp, obj', happ, -, hat⟩ := hwrote
  have hrv : got.resourceVersion = toString m' :=
    (congrArg ConfigSnapshot.resourceVersion hloaded).trans (hstored.parsed hparse).2
  refine ⟨got, hgot, ?_⟩
  rw [hrv, revisionOf_toString]
  rcases Nat.le_or_ge m m' with hle | hge
  · exact hle
  · -- nothing was stored in between, so that both are one object
    obtain rfl : obj' = obj := Option.some.inj (hat.symm.trans (hsame m hge hmr))
    exact (happ.storedAs.unique hstored).le

end CacheFeed

/-! ### The replica -/

/-- The write calls, and the cache with the API server. -/
structure Site where
  feed : CacheFeed
  pool : List (Proc KubeOp KubeOp.Resp (Except Status Reply))

inductive Site.Step (sel : Key → DynamicObject → Bool) : Site → Site → Prop
  | exchanged {x : Site} {s' : Etcd} {i : ℕ} {o : KubeOp}
      {k : o.Resp → Proc KubeOp KubeOp.Resp (Except Status Reply)} {r : o.Resp} :
      x.pool[i]? = some (.call o k) → Etcd.Answer x.feed.store o r s' →
      Step sel x ⟨{ x.feed with store := s' }, x.pool.set i (k r)⟩
  | fed {x : Site} {feed' : CacheFeed} : x.feed.Step sel feed' → Step sel x { x with feed := feed' }

/-- What the calls do to the feed is what anybody does. -/
theorem Site.feeds {x x' : Site} (h : Relation.ReflTransGen (Site.Step sel) x x') :
    Relation.ReflTransGen (CacheFeed.Step sel) x.feed x'.feed := by
  induction h with
  | refl => exact .refl
  | tail _ hstep ih =>
    cases hstep with
    | exchanged _ hans => exact ih.trans (CacheFeed.answered hans)
    | fed hfed => exact ih.tail hfed

section Site

variable [JsonSchema] [SerdeYaml] [SerdeJson]

/-- Nothing is cached, and the calls have just started. -/
def Site.start (s : Etcd) (calls : List Call) : Site := ⟨CacheFeed.start s, calls.map Call.start⟩

/-- What the calls do by themselves. -/
theorem Site.of_run {s : Etcd} {calls : List Call} {tr : List (Event KubeOp KubeOp.Resp)}
    {c : Etcd × List (Proc KubeOp KubeOp.Resp (Except Status Reply))}
    (h : Run Etcd.Answer (startedOn s calls) tr c) :
    Relation.ReflTransGen (Site.Step sel) (.start s calls) ⟨⟨c.1, .lost, .start⟩, c.2⟩ := by
  induction h with
  | nil => exact .refl
  | snoc _ hs ih =>
    cases hs with
    | call hj hans => exact ih.tail (Site.Step.exchanged hj hans)

/-- The cache follows the store, and what a call has exchanged is in the history. -/
structure Site.Inv (sel : Key → DynamicObject → Bool) (calls : List Call) (x : Site) : Prop where
  feed : x.feed.Inv
  follows : x.feed.follower.Inv configReader sel
  own : ∀ (i : ℕ) (call : Call) p, calls[i]? = some call → x.pool[i]? = some p →
    ∃ tr : KubeTrace, call.start.Steps tr p ∧ ∀ e ∈ tr, Shown x.feed.store e.1 e.2

theorem Site.inv_start {s : Etcd} (hs : s.Dated) (calls : List Call) : (Site.start s calls).Inv sel calls := by
  obtain ⟨hfeed, hfollows⟩ := CacheFeed.inv_start sel hs
  refine ⟨hfeed, hfollows, fun i call p hcall hp => ⟨[], ?_, fun e he => absurd he List.not_mem_nil⟩⟩
  have hstart : (Site.start s calls).pool[i]? = some call.start := by
    show (calls.map Call.start)[i]? = _
    rw [List.getElem?_map, hcall]
    rfl
  obtain rfl := Option.some.inj (hstart.symm.trans hp)
  exact .nil _

theorem Site.Inv.step {calls : List Call} {x x' : Site} (h : x.Inv sel calls) (hstep : x.Step sel x') :
    x'.Inv sel calls := by
  have hfeeds : Relation.ReflTransGen (CacheFeed.Step sel) x.feed x'.feed := Site.feeds (.single hstep)
  obtain ⟨hfeed, hruns⟩ := CacheFeed.follows_run h.feed hfeeds
  have hext := CacheFeed.extends_run h.feed hfeeds
  refine ⟨hfeed, (h.follows.run hruns).1, fun i call p hcall hp => ?_⟩
  cases hstep with
  | fed hfed =>
    obtain ⟨tr, hsteps, hshown⟩ := h.own i call p hcall hp
    exact ⟨tr, hsteps, fun e he => (hshown e he).mono hext⟩
  | @exchanged s' j o k r hj hans =>
    by_cases hij : j = i
    · subst hij
      obtain ⟨tr, hsteps, hshown⟩ := h.own j call _ hcall hj
      rw [List.getElem?_set_self (List.getElem?_eq_some_iff.mp hj).1, Option.some.injEq] at hp
      subst hp
      refine ⟨tr ++ [⟨o, r⟩], hsteps.snoc rfl r, fun e he => ?_⟩
      rcases List.mem_append.mp he with he | he
      · exact (hshown e he).mono hext
      · rw [List.mem_singleton.mp he]
        exact hans.shown
    · rw [List.getElem?_set_ne hij] at hp
      obtain ⟨tr, hsteps, hshown⟩ := h.own i call p hcall hp
      exact ⟨tr, hsteps, fun e he => (hshown e he).mono hext⟩

theorem Site.Inv.run {calls : List Call} {x x' : Site} (h : x.Inv sel calls)
    (hrun : Relation.ReflTransGen (Site.Step sel) x x') : x'.Inv sel calls := by
  induction hrun with
  | refl => exact h
  | tail _ hstep ih => exact ih.step hstep

omit [SerdeYaml] [SerdeJson] in
/-- A `Get` that is let in answers what is cached. -/
theorem KonfigServer.get_ends {srv : KonfigServer} {caller : Caller} {key : Key}
    (hserving : srv.checkDrain = .ok ()) (hallowed : srv.authorize caller .read key.ns key.name = .ok ())
    (snap : ConfigSnapshot) (now : Instant) :
    Ends (srv.get caller key) [⟨.getConfig key, (some snap, now)⟩] (.ok (snapshotToProto now snap)) := by
  unfold KonfigServer.get ServiceM.op
  refine ends_liftExcept_bind.mpr (.inr ⟨(), hserving, ?_⟩)
  refine ends_liftExcept_bind.mpr (.inr ⟨(), hallowed, ?_⟩)
  exact ends_op_bind.mpr ⟨(some snap, now), [], rfl, ends_pure.mpr ⟨rfl, rfl⟩⟩

/-- What was answered is in the history. -/
theorem Site.Inv.acknowledged {calls : List Call} {x : Site} {i : ℕ} {call : Call} {reply : Reply} {key : Key}
    {rv : String} (h : x.Inv sel calls) (hcall : calls[i]? = some call)
    (hend : x.pool[i]? = some (.ret (.ok reply))) (hack : call.Acknowledged reply key rv) :
    ∃ m spec, rv = toString m ∧ call.Sent x.feed.store reply key spec ∧ x.feed.store.WroteAt m key spec := by
  obtain ⟨tr, hsteps, hshown⟩ := h.own i call _ hcall hend
  obtain ⟨spec, hsent, tp, obj, hmem, hrv⟩ := Call.acknowledged_patched hack hsteps hshown
  have hpatched : Shown x.feed.store (.patch key (patchBody key spec tp)) (.ok obj) := hshown _ hmem
  cases hpatched with
  | @patched _ _ _ m happ hm hat =>
    refine ⟨m, spec, ?_, hsent, tp, obj, happ, hm, hat⟩
    rw [hrv, happ.rv]
    rfl

/-- **What is written is read.**  A write call that has answered under a resource version wrote this
revision.  From when the stream watches at this revision or a later one, and the config is there and
can be parsed, every `Get` that is let in answers this revision, which is what was sent, or a later
one, whatever happens.  A stream that is left alone comes there. -/
theorem read_your_writes {s : Etcd} {calls : List Call} {x : Site} {i : ℕ} {call : Call} {reply : Reply}
    {key : Key} {rv : String} (hs : s.Dated) (hrun : Relation.ReflTransGen (Site.Step sel) (.start s calls) x)
    (hcall : calls[i]? = some call) (hend : x.pool[i]? = some (.ret (.ok reply)))
    (hack : call.Acknowledged reply key rv) :
    ∃ m spec, rv = toString m ∧ call.Sent x.feed.store reply key spec ∧ x.feed.store.WroteAt m key spec ∧
      ∀ y, Relation.ReflTransGen (Site.Step sel) x y →
        (∀ r obj snap loaded, y.feed.pos = .watching r → m ≤ r → y.feed.store.selected sel r key = some obj →
          parseConfigObject loaded obj = some snap →
          ∀ z, Relation.ReflTransGen (Site.Step sel) y z → ∀ (srv : KonfigServer) (caller : Caller) (now : Instant),
            srv.checkDrain = .ok () → srv.authorize caller .read key.ns key.name = .ok () →
            ∃ cfg n, Ends (srv.get caller key) [⟨.getConfig key, (z.feed.watcher.cache.get key, now)⟩] (.ok cfg) ∧
              cfg.resourceVersion = toString n ∧ m ≤ n ∧ n ≤ z.feed.store.rev ∧
              (n = m → cfg.schemaVersion = spec.schemaVersion ∧ cfg.contentJson = spec.content.render)) ∧
        Settles (CacheFeed.Told sel) (CacheFeed.At y.feed.store) y.feed ∧ m ≤ y.feed.store.rev := by
  have hinv := (Site.inv_start hs calls).run hrun
  obtain ⟨m, spec, hm, hsent, hwrote⟩ := hinv.acknowledged hcall hend hack
  refine ⟨m, spec, hm, hsent, hwrote, fun y hxy => ?_⟩
  have hinvy := hinv.run hxy
  have hwrotey := hwrote.mono (CacheFeed.extends_run hinv.feed (Site.feeds hxy))
  refine ⟨fun r obj snap loaded hpos hmr hobj hparse z hyz srv caller now hserving hallowed => ?_, ?_⟩
  · obtain ⟨got, hgot, hle⟩ := CacheFeed.told_write hinvy.feed hinvy.follows hwrotey hpos hmr hobj hparse
    obtain ⟨got', hgot', hle'⟩ := CacheFeed.forward hinvy.feed hinvy.follows (Site.feeds hyz) hgot
    have hinvz := hinvy.run hyz
    have hwrotez := hwrotey.mono (CacheFeed.extends_run hinvy.feed (Site.feeds hyz))
    obtain ⟨hrv, hrev⟩ := CacheFeed.cached_rev hinvz.feed hinvz.follows hgot'
    rw [hgot']
    refine ⟨snapshotToProto now got', _, KonfigServer.get_ends hserving hallowed got' now, hrv, hle.trans hle',
      hrev, fun hn => ?_⟩
    rw [hn] at hrv
    obtain ⟨hcontent, hversion⟩ := CacheFeed.own_write hinvz.feed hinvz.follows hwrotez hgot' hrv
    exact ⟨hversion, congrArg Value.render hcontent⟩
  · obtain ⟨-, -, -, hrev, -⟩ := hwrotey
    exact ⟨CacheFeed.settles hinvy.feed hinvy.follows, hrev⟩

end Site

section Limits

attribute [local instance] historySchemas historyDocuments historyText

/-- Version `1` is tight. -/
def tightened : Etcd := noConfigs.write limitsKey (some (limitsAt 1 ⟨1, tightContent⟩))

theorem tightened_dated : tightened.Dated := by
  have hwritten : noConfigs.Written tightened := by
    refine ⟨limitsKey, _, rfl, fun obj hobj => ?_⟩
    obtain rfl := Option.some.inj hobj
    exact (limitsAt_applied 1 ⟨1, tightContent⟩).storedAs
  exact (Dated.written (dated_empty _) hwritten).2

/-- An `Apply` of version `5` between the list of a `Revert` to the first revision and its patch. -/
theorem reverted_after_apply : ∃ tr c,
    Run Etcd.Answer (startedOn tightened [applyLimits "schema_version: 5", .revert ⟨limitsKey, "1"⟩ none]) tr c ∧
      c.1 = loosened.write limitsKey (some (limitsAt 3 ⟨6, tightContent⟩)) ∧
      c.2[0]? = some (.ret (.ok (.applied ⟨"2"⟩))) ∧ c.2[1]? = some (.ret (.ok (.reverted ⟨"3", 6⟩))) := by
  have hread : readVersion (.ok (limitsAt 1 ⟨1, tightContent⟩)) = .ok 1 := rfl
  have happly := applyLimits_ends "schema_version: 5" rfl hread (by decide) 2
  obtain ⟨p, hlist, hrestore⟩ := steps_split revertLimits_ends
  have hlisted : Answered Etcd.Answer tightened
      [⟨.list "trading" "limits" "1", .ok [limitsAt 1 ⟨1, tightContent⟩]⟩] tightened :=
    .cons (.listed (n := 1) (by decide) (by decide)) (.nil _)
  have happlied : Answered Etcd.Answer tightened
      ([⟨.get limitsKey, .ok (limitsAt 1 ⟨1, tightContent⟩)⟩] ++
        [accepted limitsKey (patchBody limitsKey ⟨5, defaultContent⟩ none) (limitsAt 2 ⟨5, defaultContent⟩)])
      loosened :=
    .cons (.found rfl) (.cons (.patched (limitsAt_applied 2 _)) (.nil _))
  have hstart : Run Etcd.Answer
      (startedOn tightened [applyLimits "schema_version: 5", .revert ⟨limitsKey, "1"⟩ none]) []
      (tightened, [(applyLimits "schema_version: 5").start, Call.start (.revert ⟨limitsKey, "1"⟩ none)]) := .nil
  have hrun := run_of_steps_at (i := 1) hlist rfl hstart hlisted
  have hrun' := run_of_steps_at (i := 0) happly rfl hrun happlied
  exact ⟨_, _, run_of_steps_at (i := 1) hrestore rfl hrun' restoresLimits_answered, rfl, rfl, rfl⟩

/-- Both are answered, the stream tells them, and then the restored content is read. -/
theorem read_your_limits : ∃ x z cfg,
    Relation.ReflTransGen (Site.Step (selectsName "trading" "limits"))
      (.start tightened [applyLimits "schema_version: 5", .revert ⟨limitsKey, "1"⟩ none]) x ∧
    x.feed.store.WroteAt 2 limitsKey ⟨5, defaultContent⟩ ∧ x.feed.store.WroteAt 3 limitsKey ⟨6, tightContent⟩ ∧
    Relation.ReflTransGen (Site.Step (selectsName "trading" "limits")) x z ∧
    Ends (openServer.get operator limitsKey) [⟨.getConfig limitsKey, (z.feed.watcher.cache.get limitsKey, 7)⟩]
      (.ok cfg) ∧ cfg.resourceVersion = "3" ∧ cfg.schemaVersion = 6 ∧ cfg.contentJson = tightContent.render := by
  obtain ⟨tr, c, hrun, hstore, hend, hend'⟩ := reverted_after_apply
  have hanswered : Relation.ReflTransGen (Site.Step (selectsName "trading" "limits"))
      (.start tightened [applyLimits "schema_version: 5", .revert ⟨limitsKey, "1"⟩ none])
      ⟨⟨c.1, .lost, .start⟩, c.2⟩ := Site.of_run hrun
  obtain ⟨m, spec, hm, hsent, hwrote, -⟩ := read_your_writes tightened_dated hanswered rfl hend .applied
  obtain rfl : 2 = m := (congrArg revisionOf hm).trans (revisionOf_toString m)
  obtain rfl : (⟨5, defaultContent⟩ : ConfigSpec) = spec := by
    cases hsent with
    | given hgiven => exact Except.ok.inj hgiven.2.1
  obtain ⟨m', spec', hm', hsent', hwrote', hafter⟩ := read_your_writes tightened_dated hanswered rfl hend' .reverted
  obtain rfl : 3 = m' := (congrArg revisionOf hm').trans (revisionOf_toString m')
  obtain rfl : (⟨6, tightContent⟩ : ConfigSpec) = spec' := by
    cases hsent' with
    | given hgiven => exact hgiven.elim
    | restored hn hheld =>
      -- the content is the one of the revision that the call names
      obtain rfl := Option.some.inj hn
      obtain ⟨-, obj, hobj, hparse⟩ := hheld
      have hobj' : (loosened.write limitsKey (some (limitsAt 3 ⟨6, tightContent⟩))).asOf 1 limitsKey = some obj :=
        hstore ▸ hobj
      cases hobj'
      obtain ⟨snap, hsnap, rfl⟩ := hparse 0
      cases hsnap
      rfl
  obtain ⟨-, hsettles, -⟩ := hafter _ .refl
  obtain ⟨feed, htold, hsame, hpos⟩ := hsettles.comes
  have hz : Relation.ReflTransGen (Site.Step (selectsName "trading" "limits")) ⟨⟨c.1, .lost, .start⟩, c.2⟩
      ⟨feed, c.2⟩ := htold.lift (fun feed => Site.mk feed c.2) fun _ _ h => .fed (.told h)
  have hlast : feed.store = loosened.write limitsKey (some (limitsAt 3 ⟨6, tightContent⟩)) := hsame.trans hstore
  have hat : feed.store.selected (selectsName "trading" "limits") 3 limitsKey =
      some (limitsAt 3 ⟨6, tightContent⟩) := by
    rw [hlast]
    rfl
  have hpos' : feed.pos = .watching 3 := by
    rw [hpos, hstore]
    rfl
  obtain ⟨cfg, n, hget, hrv, hle, hrev, hown⟩ :=
    (hafter _ hz).1 3 _ _ 0 hpos' le_rfl hat rfl _ .refl openServer operator 7 rfl rfl
  rw [hlast] at hrev
  obtain rfl : n = 3 := Nat.le_antisymm hrev hle
  obtain ⟨hversion, hcontent⟩ := hown rfl
  exact ⟨_, _, cfg, hanswered, hwrote, hwrote', hz, hget, hrv, hversion, hcontent⟩

end Limits

end Konfig
