import Konfig.Subscribe.Session
import Konfig.Lib.Mailboxes

/-!
# The shards of a namespace

`ShardSet` of `grpc/subscribe/broadcast.rs` and the receivers that sit on its shards.
The creating call keeps the receiver of shard `0`, every later one is put on the next
shard by a wrapping cursor.

A receiver is a position in what its channel has stored, and a channel without receivers
stores nothing.  Reduced to what each receiver has taken and has waiting
(`FanOut.mailboxes`), the shards are one set of `Mailboxes`: every step is the step
of the mailboxes (`FanOut.step_mailboxes`), so neither the number of shards nor the
cursor shows (`shards_transparent`).
-/

namespace Konfig

open Lib

/-- A `tokio::sync::broadcast` channel.  `offered` is a history variable: every frame
that `send` was called with. -/
structure BroadcastChannel where
  log : List BroadcastFrame
  receiverCount : Nat
  offered : List BroadcastFrame

def BroadcastChannel.new : BroadcastChannel := { log := [], receiverCount := 0, offered := [] }

/-- A frame nobody can receive is refused. -/
def BroadcastChannel.send (tx : BroadcastChannel) (frame : BroadcastFrame) : Bool × BroadcastChannel :=
  if tx.receiverCount = 0 then (false, { tx with offered := tx.offered ++ [frame] })
  else (true, { tx with log := tx.log ++ [frame], offered := tx.offered ++ [frame] })

/-- A receiver has been added. -/
def BroadcastChannel.join (tx : BroadcastChannel) : BroadcastChannel :=
  { tx with receiverCount := tx.receiverCount + 1 }

/-- A receiver has been dropped. -/
def BroadcastChannel.leave (tx : BroadcastChannel) : BroadcastChannel :=
  { tx with receiverCount := tx.receiverCount - 1 }

/-- The receiver a call returns, on the shard it was put on.  `received` and `lagged`
are history variables; `attached` is false once it is dropped. -/
structure BroadcastReceiver where
  shard : Nat
  next : Nat
  attached : Bool
  received : List BroadcastFrame
  lagged : Bool

def BroadcastChannel.receiver (tx : BroadcastChannel) (shard : Nat) : BroadcastReceiver :=
  { shard, next := tx.log.length, attached := true, received := [], lagged := false }

/-- `recv`: a lag is reported once, and moves the receiver to the oldest frame that is
still there. -/
def BroadcastReceiver.recv (log : List BroadcastFrame) (rx : BroadcastReceiver) :
    Option BroadcastReceiver :=
  if rx.attached then
    if BROADCAST_CAPACITY < log.length - rx.next then
      some { rx with next := log.length - BROADCAST_CAPACITY, lagged := true }
    else
      match log[rx.next]? with
      | none => none
      | some frame => some { rx with next := rx.next + 1, received := rx.received ++ [frame] }
  else none

def BroadcastReceiver.drop (rx : BroadcastReceiver) : Option BroadcastReceiver :=
  if rx.attached then some { rx with attached := false } else none

def MIN_BROADCAST_SHARDS : Nat := 1

/-- The cursor is a `usize`, of 64 bits. -/
structure ShardSet where
  senders : List BroadcastChannel
  next : UInt64
  nonempty : senders ≠ []

/-- Change one channel. -/
def ShardSet.modify (set : ShardSet) (idx : Nat) (f : BroadcastChannel → BroadcastChannel) : ShardSet :=
  { set with
    senders := set.senders.modify idx f
    nonempty := fun h => set.nonempty (List.modify_eq_nil_iff.mp h) }

/-- `ShardSet::new`, with one receiver on each channel. -/
def ShardSet.new (shards : Nat) : ShardSet × List BroadcastReceiver :=
  let shards := max shards MIN_BROADCAST_SHARDS
  ({ senders := List.replicate shards BroadcastChannel.new.join
     next := 0
     nonempty := by
       rw [ne_eq, List.replicate_eq_nil_iff]
       exact Nat.ne_of_gt (Nat.lt_of_lt_of_le Nat.zero_lt_one (Nat.le_max_right _ _)) },
    (List.range shards).map BroadcastChannel.new.receiver)

/-- The number of the shard the cursor points at. -/
def ShardSet.idx (set : ShardSet) : Nat := set.next.toNat % set.senders.length

theorem ShardSet.idx_lt (set : ShardSet) : set.idx < set.senders.length :=
  Nat.mod_lt _ (List.length_pos_iff.mpr set.nonempty)

/-- `fetch_add` wraps. -/
def ShardSet.nextReceiver (set : ShardSet) : ShardSet × BroadcastReceiver :=
  ({ set.modify set.idx BroadcastChannel.join with next := set.next + 1 },
    (set.senders.get ⟨set.idx, set.idx_lt⟩).receiver set.idx)

/-- The loop goes on after a shard that took the frame. -/
def ShardSet.sendToAll (set : ShardSet) (frame : BroadcastFrame) : Bool × ShardSet :=
  (set.senders.any fun tx => (tx.send frame).1,
    { set with
      senders := set.senders.map fun tx => (tx.send frame).2
      nonempty := fun h => set.nonempty (List.map_eq_nil_iff.mp h) })

def ShardSet.totalReceiverCount (set : ShardSet) : Nat := (set.senders.map (·.receiverCount)).sum

/-- Drop a receiver that was not handed out. -/
def ShardSet.dropReceiver (set : ShardSet) (rx : BroadcastReceiver) : ShardSet :=
  set.modify rx.shard BroadcastChannel.leave

/-- The vacant branch of `get_or_create_broadcast`: it keeps the first receiver and drops
the others. -/
def ShardSet.create (broadcastShards : Nat) : ShardSet × List BroadcastReceiver :=
  let (set, receivers) := ShardSet.new broadcastShards
  ((receivers.drop 1).foldl ShardSet.dropReceiver set, receivers.take 1)

/-- What the channel of a shard has stored. -/
def ShardSet.logOf (set : ShardSet) (shard : Nat) : List BroadcastFrame :=
  ((set.senders[shard]?).map (·.log)).getD []

/-- A namespace's shards and all receivers that were ever returned. -/
structure FanOut where
  shards : ShardSet
  receivers : List BroadcastReceiver

/-- After the creating call, with the cursor anywhere. -/
def FanOut.create (broadcastShards : Nat) (cursor : UInt64) : FanOut :=
  let (set, receivers) := ShardSet.create broadcastShards
  { shards := { set with next := cursor }, receivers }

abbrev FanOutLabel := MailLabel BroadcastFrame

def FanOut.step (s : FanOut) : FanOutLabel → Option FanOut
  | .attach =>
    let (shards, rx) := s.shards.nextReceiver
    some { shards, receivers := s.receivers ++ [rx] }
  | .detach i =>
    (onReader s.receivers i BroadcastReceiver.drop).bind fun receivers =>
      (s.receivers[i]?).map fun rx => { shards := s.shards.dropReceiver rx, receivers }
  | .send frame => some { s with shards := (s.shards.sendToAll frame).2 }
  | .recv i =>
    (onReader s.receivers i fun rx => rx.recv (s.shards.logOf rx.shard)).map fun receivers =>
      { s with receivers }

/-! ### Receivers and counts -/

@[simp] theorem BroadcastChannel.join_log (tx : BroadcastChannel) : tx.join.log = tx.log := rfl

@[simp] theorem BroadcastChannel.leave_log (tx : BroadcastChannel) : tx.leave.log = tx.log := rfl

theorem BroadcastChannel.send_log (tx : BroadcastChannel) (frame : BroadcastFrame) :
    (tx.send frame).2.log = if tx.receiverCount = 0 then tx.log else tx.log ++ [frame] := by
  unfold BroadcastChannel.send
  split <;> rfl

@[simp] theorem BroadcastChannel.send_receiverCount (tx : BroadcastChannel) (frame : BroadcastFrame) :
    (tx.send frame).2.receiverCount = tx.receiverCount := by
  unfold BroadcastChannel.send
  split <;> rfl

@[simp] theorem BroadcastChannel.send_offered (tx : BroadcastChannel) (frame : BroadcastFrame) :
    (tx.send frame).2.offered = tx.offered ++ [frame] := by
  unfold BroadcastChannel.send
  split <;> rfl

/-- A receiver that sits on a shard. -/
def BroadcastReceiver.on (k : Nat) (rx : BroadcastReceiver) : Bool := rx.attached && rx.shard == k

/-- The counter of a shard. -/
def ShardSet.countOf (set : ShardSet) (k : Nat) : Nat := ((set.senders[k]?).map (·.receiverCount)).getD 0

theorem ShardSet.modify_getElem? (set : ShardSet) (idx k : Nat) (f : BroadcastChannel → BroadcastChannel) :
    (set.modify idx f).senders[k]? = (set.senders[k]?).map fun tx => if idx = k then f tx else tx :=
  List.getElem?_modify f idx set.senders k

theorem ShardSet.logOf_modify (set : ShardSet) (idx : Nat) {f : BroadcastChannel → BroadcastChannel}
    (hf : ∀ tx, (f tx).log = tx.log) (k : Nat) : (set.modify idx f).logOf k = set.logOf k := by
  unfold ShardSet.logOf
  rw [ShardSet.modify_getElem?, Option.map_map]
  congr 2
  funext tx
  simp only [Function.comp_apply]
  split
  · exact hf tx
  · rfl

theorem ShardSet.countOf_join (set : ShardSet) {idx : Nat} (hidx : idx < set.senders.length) (k : Nat) :
    (set.modify idx BroadcastChannel.join).countOf k = set.countOf k + if idx = k then 1 else 0 := by
  unfold ShardSet.countOf
  rw [ShardSet.modify_getElem?]
  by_cases hk : idx = k
  · subst hk
    rw [List.getElem?_eq_getElem hidx, if_pos rfl]
    simp [BroadcastChannel.join]
  · cases set.senders[k]? <;> simp [hk]

theorem ShardSet.countOf_leave (set : ShardSet) (idx k : Nat) :
    (set.modify idx BroadcastChannel.leave).countOf k = set.countOf k - if idx = k then 1 else 0 := by
  unfold ShardSet.countOf
  rw [ShardSet.modify_getElem?]
  by_cases hk : idx = k
  · subst hk
    cases set.senders[idx]? <;> simp [BroadcastChannel.leave]
  · cases set.senders[k]? <;> simp [hk]

theorem ShardSet.countOf_sendToAll (set : ShardSet) (frame : BroadcastFrame) (k : Nat) :
    (set.sendToAll frame).2.countOf k = set.countOf k := by
  unfold ShardSet.countOf ShardSet.sendToAll
  rw [List.getElem?_map, Option.map_map]
  congr 2
  funext tx
  exact BroadcastChannel.send_receiverCount tx frame

/-- Each channel counts the receivers that sit on it, and no receiver is past what its
channel has stored. -/
structure FanOut.Counted (s : FanOut) : Prop where
  count : ∀ k, s.shards.countOf k = s.receivers.countP (BroadcastReceiver.on k)
  behind : ∀ rx ∈ s.receivers, rx.next ≤ (s.shards.logOf rx.shard).length

/-- The channel of an attached receiver. -/
theorem FanOut.Counted.channel {s : FanOut} (hc : s.Counted) {rx : BroadcastReceiver}
    (hrx : rx ∈ s.receivers) (hatt : rx.attached = true) :
    ∃ tx, s.shards.senders[rx.shard]? = some tx ∧ tx.receiverCount ≠ 0 := by
  have hpos : 0 < s.shards.countOf rx.shard := by
    rw [hc.count, List.countP_pos_iff]
    exact ⟨rx, hrx, by simp [BroadcastReceiver.on, hatt]⟩
  unfold ShardSet.countOf at hpos
  cases htx : s.shards.senders[rx.shard]? with
  | none => simp [htx] at hpos
  | some tx => exact ⟨tx, rfl, by simpa [htx, Nat.pos_iff_ne_zero] using hpos⟩

theorem FanOut.Counted.shard_lt {s : FanOut} (hc : s.Counted) {rx : BroadcastReceiver}
    (hrx : rx ∈ s.receivers) (hatt : rx.attached = true) : rx.shard < s.shards.senders.length := by
  obtain ⟨tx, htx, _⟩ := hc.channel hrx hatt
  exact (List.getElem?_eq_some_iff.mp htx).1

/-! ### The creating call -/

theorem FanOut.counted_new (shards : Nat) (cursor : UInt64) :
    FanOut.Counted
      { shards := { (ShardSet.new shards).1 with next := cursor }, receivers := (ShardSet.new shards).2 } := by
  refine ⟨fun k => ?_, fun rx hrx => ?_⟩
  · have hon : BroadcastReceiver.on k ∘ BroadcastChannel.new.receiver = (· == k) := by
      funext n
      rfl
    simp only [ShardSet.countOf, ShardSet.new]
    rw [List.countP_map, hon, List.getElem?_replicate, ← List.count, List.count_range]
    split <;> rfl
  · obtain ⟨n, _, rfl⟩ := List.mem_map.mp hrx
    exact Nat.zero_le _

/-- Dropping receivers that were not handed out. -/
theorem FanOut.Counted.dropAll : ∀ {dropped : List BroadcastReceiver} {set : ShardSet}
    {kept : List BroadcastReceiver}, (∀ rx ∈ dropped, rx.attached = true) →
    FanOut.Counted { shards := set, receivers := kept ++ dropped } →
    FanOut.Counted { shards := dropped.foldl ShardSet.dropReceiver set, receivers := kept } := by
  intro dropped
  induction dropped with
  | nil =>
    intro set kept _ hc
    rwa [List.append_nil] at hc
  | cons rx dropped ih =>
    intro set kept hatt hc
    refine ih (fun r hr => hatt r (List.mem_cons_of_mem _ hr)) ⟨fun k => ?_, fun r hr => ?_⟩
    · have hk := hc.count k
      have hon : BroadcastReceiver.on k rx = decide (rx.shard = k) := by
        rw [BroadcastReceiver.on, hatt rx List.mem_cons_self]
        rfl
      simp only [List.countP_append, List.countP_cons, hon, decide_eq_true_eq] at hk ⊢
      rw [ShardSet.dropReceiver, ShardSet.countOf_leave, hk]
      omega
    · have hb := hc.behind r (by
        rcases List.mem_append.mp hr with h | h
        · exact List.mem_append_left _ h
        · exact List.mem_append_right _ (List.mem_cons_of_mem _ h))
      exact hb.trans_eq (congrArg List.length
        (set.logOf_modify rx.shard BroadcastChannel.leave_log r.shard).symm)

theorem ShardSet.new_receivers_attached {shards : Nat} {rx : BroadcastReceiver}
    (h : rx ∈ (ShardSet.new shards).2) : rx.attached = true := by
  obtain ⟨n, _, rfl⟩ := List.mem_map.mp h
  rfl

theorem ShardSet.foldl_dropReceiver_next (cursor : UInt64) : ∀ (dropped : List BroadcastReceiver)
    (set : ShardSet), ({ dropped.foldl ShardSet.dropReceiver set with next := cursor } : ShardSet) =
      dropped.foldl ShardSet.dropReceiver { set with next := cursor } := by
  intro dropped
  induction dropped with
  | nil => intro set; rfl
  | cons rx dropped ih => intro set; exact ih (set.dropReceiver rx)

theorem ShardSet.logOf_dropAll (k : Nat) : ∀ (dropped : List BroadcastReceiver) (set : ShardSet),
    (dropped.foldl ShardSet.dropReceiver set).logOf k = set.logOf k := by
  intro dropped
  induction dropped with
  | nil => intro set; rfl
  | cons rx dropped ih =>
    intro set
    exact (ih (set.dropReceiver rx)).trans (set.logOf_modify rx.shard BroadcastChannel.leave_log k)

theorem ShardSet.logOf_create (shards : Nat) (cursor : UInt64) (k : Nat) :
    (FanOut.create shards cursor).shards.logOf k = [] := by
  refine (ShardSet.logOf_dropAll k _ (ShardSet.new shards).1).trans ?_
  simp only [ShardSet.logOf, ShardSet.new, List.getElem?_replicate]
  split <;> rfl

theorem FanOut.counted_create (shards : Nat) (cursor : UInt64) : (FanOut.create shards cursor).Counted := by
  unfold FanOut.create ShardSet.create
  simp only [ShardSet.foldl_dropReceiver_next]
  refine FanOut.Counted.dropAll (fun rx hrx => ShardSet.new_receivers_attached (List.mem_of_mem_drop hrx)) ?_
  rw [List.take_append_drop]
  exact FanOut.counted_new shards cursor

/-- The creator's receiver sits on shard `0`. -/
theorem FanOut.create_receivers (shards : Nat) (cursor : UInt64) :
    (FanOut.create shards cursor).receivers = [BroadcastChannel.new.receiver 0] := by
  simp only [FanOut.create, ShardSet.create, ShardSet.new]
  obtain ⟨n, hn⟩ := Nat.exists_eq_succ_of_ne_zero
    (Nat.ne_of_gt (Nat.lt_of_lt_of_le Nat.zero_lt_one (Nat.le_max_right shards MIN_BROADCAST_SHARDS)))
  rw [hn, List.range_succ_eq_map]
  rfl

/-! ### What a step keeps -/

theorem ShardSet.logOf_sendToAll (set : ShardSet) (frame : BroadcastFrame) (k : Nat) :
    (set.sendToAll frame).2.logOf k =
      if set.countOf k = 0 then set.logOf k else set.logOf k ++ [frame] := by
  unfold ShardSet.logOf ShardSet.countOf ShardSet.sendToAll
  rw [List.getElem?_map]
  cases set.senders[k]? with
  | none => rfl
  | some tx => exact BroadcastChannel.send_log tx frame

theorem ShardSet.logOf_length_le_sendToAll (set : ShardSet) (frame : BroadcastFrame) (k : Nat) :
    (set.logOf k).length ≤ ((set.sendToAll frame).2.logOf k).length := by
  rw [ShardSet.logOf_sendToAll]
  split
  · exact le_rfl
  · rw [List.length_append]
    exact Nat.le_add_right _ _

theorem BroadcastReceiver.recv_some {log : List BroadcastFrame} {rx rx' : BroadcastReceiver}
    (h : rx.recv log = some rx') :
    rx.attached = true ∧ rx'.attached = true ∧ rx'.shard = rx.shard ∧ rx'.next ≤ log.length := by
  unfold BroadcastReceiver.recv at h
  split at h
  · rename_i hatt
    split at h
    · cases h
      exact ⟨hatt, hatt, rfl, Nat.sub_le _ _⟩
    · split at h
      · cases h
      · rename_i frame hframe
        cases h
        exact ⟨hatt, hatt, rfl, (List.getElem?_eq_some_iff.mp hframe).1⟩
  · cases h

theorem BroadcastReceiver.drop_some {rx rx' : BroadcastReceiver} (h : rx.drop = some rx') :
    rx.attached = true ∧ rx' = { rx with attached := false } := by
  unfold BroadcastReceiver.drop at h
  split at h
  · exact ⟨‹_›, (Option.some.inj h).symm⟩
  · cases h

theorem ShardSet.logOf_nextReceiver (set : ShardSet) (k : Nat) :
    set.nextReceiver.1.logOf k = set.logOf k :=
  set.logOf_modify set.idx BroadcastChannel.join_log k

/-- A new receiver waits for what comes next. -/
theorem ShardSet.nextReceiver_next (set : ShardSet) :
    set.nextReceiver.2.next = (set.logOf set.nextReceiver.2.shard).length := by
  simp [ShardSet.nextReceiver, BroadcastChannel.receiver, ShardSet.logOf,
    List.getElem?_eq_getElem set.idx_lt]

theorem FanOut.Counted.step {s t : FanOut} {l : FanOutLabel} (hc : s.Counted) (h : s.step l = some t) :
    t.Counted := by
  cases l with
  | attach =>
    cases h
    refine ⟨fun k => ?_, fun rx hrx => ?_⟩
    · have hjoin := s.shards.countOf_join s.shards.idx_lt k
      rw [List.countP_append, ← hc.count k, List.countP_singleton]
      simpa [ShardSet.nextReceiver, BroadcastReceiver.on, BroadcastChannel.receiver, ShardSet.countOf]
        using hjoin
    · refine Nat.le_trans ?_ (congrArg List.length (s.shards.logOf_nextReceiver rx.shard)).ge
      rcases List.mem_append.mp hrx with hrx | hrx
      · exact hc.behind rx hrx
      · obtain rfl := List.mem_singleton.mp hrx
        exact s.shards.nextReceiver_next.le
  | detach i =>
    simp only [FanOut.step, Option.bind_eq_some_iff, Option.map_eq_some_iff] at h
    obtain ⟨receivers, hset, rx, hrx, rfl⟩ := h
    obtain ⟨rx₀, rx', hrx₀, hdrop, rfl⟩ := onReader_some hset
    obtain rfl : rx = rx₀ := Option.some.inj (hrx.symm.trans hrx₀)
    obtain ⟨hatt, rfl⟩ := BroadcastReceiver.drop_some hdrop
    obtain ⟨hi, rfl⟩ := List.getElem?_eq_some_iff.mp hrx
    refine ⟨fun k => ?_, fun r hr => ?_⟩
    · rw [ShardSet.dropReceiver, ShardSet.countOf_leave, hc.count k, List.countP_set hi]
      simp [BroadcastReceiver.on, hatt]
    · rw [ShardSet.dropReceiver, ShardSet.logOf_modify _ _ BroadcastChannel.leave_log]
      rcases List.mem_or_eq_of_mem_set hr with hr | rfl
      · exact hc.behind r hr
      · exact hc.behind s.receivers[i] (List.getElem_mem hi)
  | send frame =>
    cases h
    refine ⟨fun k => (s.shards.countOf_sendToAll frame k).trans (hc.count k), fun rx hrx => ?_⟩
    exact (hc.behind rx hrx).trans (s.shards.logOf_length_le_sendToAll frame rx.shard)
  | recv i =>
    simp only [FanOut.step, Option.map_eq_some_iff] at h
    obtain ⟨receivers, hset, rfl⟩ := h
    obtain ⟨rx, rx', hrx, hrecv, rfl⟩ := onReader_some hset
    obtain ⟨hatt, hatt', hshard, hnext⟩ := BroadcastReceiver.recv_some hrecv
    obtain ⟨hi, rfl⟩ := List.getElem?_eq_some_iff.mp hrx
    refine ⟨fun k => ?_, fun r hr => ?_⟩
    · have hpos := List.countP_pos_iff (p := BroadcastReceiver.on k) (l := s.receivers)
      rw [hc.count k, List.countP_set hi]
      have hsame : BroadcastReceiver.on k rx' = BroadcastReceiver.on k s.receivers[i] := by
        rw [BroadcastReceiver.on, BroadcastReceiver.on, hatt, hatt', hshard]
      rw [hsame]
      split
      · have : 0 < s.receivers.countP (BroadcastReceiver.on k) :=
          hpos.mpr ⟨_, List.getElem_mem hi, ‹_›⟩
        omega
      · rfl
    · rcases List.mem_or_eq_of_mem_set hr with hr | rfl
      · exact hc.behind r hr
      · rw [hshard]
        exact hnext

/-! ### The shards as mailboxes -/

/-- What a receiver has not read. -/
def FanOut.waiting (s : FanOut) (rx : BroadcastReceiver) : List BroadcastFrame :=
  (s.shards.logOf rx.shard).drop rx.next

def FanOut.mailbox (s : FanOut) (rx : BroadcastReceiver) : Mailbox BroadcastFrame :=
  { live := rx.attached
    taken := rx.received
    queue := if rx.attached then s.waiting rx else []
    lagged := rx.lagged }

def FanOut.mailboxes (s : FanOut) : List (Mailbox BroadcastFrame) := s.receivers.map s.mailbox

/-- A mailbox depends on the shards only through what they have stored. -/
theorem FanOut.mailbox_congr {s t : FanOut} (h : ∀ k, t.shards.logOf k = s.shards.logOf k) (rx : BroadcastReceiver) :
    t.mailbox rx = s.mailbox rx := by
  simp only [FanOut.mailbox, FanOut.waiting, h]

theorem FanOut.mailboxes_create (shards : Nat) (cursor : UInt64) :
    (FanOut.create shards cursor).mailboxes = [.new] := by
  have hlog : (FanOut.create shards cursor).waiting (BroadcastChannel.new.receiver 0) = [] := by
    rw [FanOut.waiting, ShardSet.logOf_create, List.drop_nil]
  rw [FanOut.mailboxes, FanOut.create_receivers, List.map_singleton, FanOut.mailbox, hlog]
  rfl

theorem FanOut.mailbox_send {s : FanOut} (hc : s.Counted) (frame : BroadcastFrame)
    {rx : BroadcastReceiver} (hrx : rx ∈ s.receivers) :
    FanOut.mailbox { s with shards := (s.shards.sendToAll frame).2 } rx =
      (s.mailbox rx).deliver frame := by
  unfold FanOut.mailbox Mailbox.deliver FanOut.waiting
  cases hatt : rx.attached with
  | false => rfl
  | true =>
    obtain ⟨tx, htx, hcount⟩ := hc.channel hrx hatt
    have hne : s.shards.countOf rx.shard ≠ 0 := by
      rw [ShardSet.countOf, htx]
      exact hcount
    rw [ShardSet.logOf_sendToAll, if_neg hne, List.drop_append_of_le_length (hc.behind rx hrx)]
    rfl

theorem FanOut.mailbox_drop (s : FanOut) (rx : BroadcastReceiver) :
    rx.drop.map s.mailbox = (s.mailbox rx).close := by
  unfold BroadcastReceiver.drop Mailbox.close
  cases hatt : rx.attached <;> simp [FanOut.mailbox, hatt]

theorem FanOut.mailbox_recv (s : FanOut) (rx : BroadcastReceiver) :
    (rx.recv (s.shards.logOf rx.shard)).map s.mailbox = (s.mailbox rx).take BROADCAST_CAPACITY := by
  unfold BroadcastReceiver.recv Mailbox.take
  cases hatt : rx.attached with
  | false => simp [FanOut.mailbox, hatt]
  | true =>
    simp only [FanOut.mailbox, FanOut.waiting, hatt, if_true, List.length_drop, List.drop_drop]
    split
    · rename_i hlag
      have hpos : rx.next + ((s.shards.logOf rx.shard).length - rx.next - BROADCAST_CAPACITY) =
          (s.shards.logOf rx.shard).length - BROADCAST_CAPACITY := by omega
      simp [FanOut.mailbox, FanOut.waiting, hpos]
    · rcases Nat.lt_or_ge rx.next (s.shards.logOf rx.shard).length with hlt | hge
      · rw [List.getElem?_eq_getElem hlt, List.drop_eq_getElem_cons hlt]
        simp [FanOut.mailbox, FanOut.waiting]
      · rw [List.getElem?_eq_none hge, List.drop_of_length_le hge]
        rfl

/-- **Every step is the step of the mailboxes.** -/
theorem FanOut.step_mailboxes {s : FanOut} (hc : s.Counted) (l : FanOutLabel) :
    (s.step l).map FanOut.mailboxes = Mailboxes.step BROADCAST_CAPACITY s.mailboxes l := by
  cases l with
  | attach =>
    simp only [FanOut.step, Option.map_some, Mailboxes.step, FanOut.mailboxes, List.map_append,
      List.map_singleton]
    have hlog : ∀ k, s.shards.nextReceiver.1.logOf k = s.shards.logOf k := s.shards.logOf_nextReceiver
    have hnew : FanOut.mailbox
        { shards := s.shards.nextReceiver.1, receivers := s.receivers ++ [s.shards.nextReceiver.2] }
          s.shards.nextReceiver.2 = .new := by
      rw [FanOut.mailbox, FanOut.waiting, hlog, s.shards.nextReceiver_next, List.drop_length]
      rfl
    rw [hnew, List.map_congr_left fun rx _ => FanOut.mailbox_congr (s := s) hlog rx]
  | detach i =>
    simp only [FanOut.step, Mailboxes.step, FanOut.mailboxes]
    rw [← onReader_map (f := BroadcastReceiver.drop) (fun rx _ => s.mailbox_drop rx) i]
    cases hset : onReader s.receivers i BroadcastReceiver.drop with
    | none => rfl
    | some receivers =>
      obtain ⟨rx, _, hrx, _, _⟩ := onReader_some hset
      rw [Option.bind_some, hrx, Option.map_some, Option.map_some, Option.map_some]
      have hlog : ∀ k, (s.shards.dropReceiver rx).logOf k = s.shards.logOf k :=
        s.shards.logOf_modify rx.shard BroadcastChannel.leave_log
      exact congrArg some (List.map_congr_left fun r _ => FanOut.mailbox_congr (s := s) hlog r)
  | send frame =>
    simp only [FanOut.step, Option.map_some, Mailboxes.step, FanOut.mailboxes, List.map_map]
    exact congrArg some (List.map_congr_left fun rx hrx => FanOut.mailbox_send hc frame hrx)
  | recv i =>
    simp only [FanOut.step, Option.map_map, Mailboxes.step]
    exact onReader_map (fun rx _ => s.mailbox_recv rx) i

theorem FanOut.counted_run {shards : Nat} {cursor : UInt64} {ls : List FanOutLabel} {s : FanOut}
    (h : run FanOut.step (.create shards cursor) ls = some s) : s.Counted :=
  run_induction (fun _ => FanOut.Counted) (FanOut.counted_create shards cursor)
    (fun _ _ _ _ _ hc ha => hc.step ha) ls s h

/-- Runs of the shards are the runs of the mailboxes. -/
theorem FanOut.run_mailboxes : ∀ {ls : List FanOutLabel} {s : FanOut}, s.Counted →
    (run FanOut.step s ls).map FanOut.mailboxes =
      run (Mailboxes.step BROADCAST_CAPACITY) s.mailboxes ls := by
  intro ls
  induction ls with
  | nil => intro s _; rfl
  | cons l ls ih =>
    intro s hc
    rw [run_cons, run_cons, ← FanOut.step_mailboxes hc l]
    cases hl : s.step l with
    | none => rfl
    | some t => exact ih (hc.step hl)

/-- A run after the creating call is a run from no readers at all. -/
theorem FanOut.run_create (shards : Nat) (cursor : UInt64) (ls : List FanOutLabel) :
    (run FanOut.step (.create shards cursor) ls).map FanOut.mailboxes =
      run (Mailboxes.step BROADCAST_CAPACITY) [] (.attach :: ls) := by
  rw [FanOut.run_mailboxes (FanOut.counted_create shards cursor), FanOut.mailboxes_create]
  rfl

/-! ### The counts -/

theorem FanOut.Counted.total {s : FanOut} (hc : s.Counted) :
    s.shards.totalReceiverCount = s.receivers.countP (·.attached) := by
  have hcounts : s.shards.senders.map (·.receiverCount) =
      (List.range s.shards.senders.length).map fun k => s.receivers.countP (BroadcastReceiver.on k) := by
    refine List.ext_getElem (by simp) fun k hk hk' => ?_
    rw [List.length_map] at hk
    rw [List.getElem_map, List.getElem_map, List.getElem_range, ← hc.count k, ShardSet.countOf,
      List.getElem?_eq_getElem hk]
    rfl
  rw [ShardSet.totalReceiverCount, hcounts]
  exact sum_countP_places (·.attached) (·.shard) _ s.receivers fun rx hrx hatt => hc.shard_lt hrx hatt

theorem FanOut.Counted.sendToAll_iff {s : FanOut} (hc : s.Counted) (frame : BroadcastFrame) :
    (s.shards.sendToAll frame).1 = true ↔ ∃ rx ∈ s.receivers, rx.attached = true := by
  have hsend : ∀ tx : BroadcastChannel, (tx.send frame).1 = true ↔ tx.receiverCount ≠ 0 := by
    intro tx
    unfold BroadcastChannel.send
    split
    · simp [*]
    · simp [*]
  simp only [ShardSet.sendToAll, List.any_eq_true, hsend]
  constructor
  · rintro ⟨tx, htx, hcount⟩
    obtain ⟨k, hk, rfl⟩ := List.getElem_of_mem htx
    have hpos : 0 < s.receivers.countP (BroadcastReceiver.on k) := by
      rw [← hc.count k, ShardSet.countOf, List.getElem?_eq_getElem hk]
      exact Nat.pos_of_ne_zero hcount
    obtain ⟨rx, hrx, hon⟩ := List.countP_pos_iff.mp hpos
    exact ⟨rx, hrx, (Bool.and_eq_true_iff.mp hon).1⟩
  · rintro ⟨rx, hrx, hatt⟩
    obtain ⟨tx, htx, hcount⟩ := hc.channel hrx hatt
    exact ⟨tx, List.mem_of_getElem? htx, hcount⟩

/-- **Sharding is transparent.**  For any number of shards, any cursor and any order of
steps: every other number of shards and cursor can make the same steps and leaves every
receiver with the same frames; a receiver that has not lagged has received, or has
waiting, exactly what was sent since it came; and the counts are those of one channel. -/
theorem shards_transparent (shards : Nat) (cursor : UInt64) (ls : List FanOutLabel) (s : FanOut)
    (hrun : run FanOut.step (.create shards cursor) ls = some s) :
    (∀ shards' cursor', ∃ s', run FanOut.step (.create shards' cursor') ls = some s' ∧
      s'.mailboxes = s.mailboxes) ∧
    (∀ i rx, s.receivers[i]? = some rx → rx.lagged = false →
      rx.received <+: sentAfter i ls ∧
      (rx.attached = true → rx.received ++ s.waiting rx = sentAfter i ls)) ∧
    s.shards.totalReceiverCount = (s.receivers.filter (·.attached)).length ∧
    (∀ frame, (s.shards.sendToAll frame).1 = true ↔ ∃ rx ∈ s.receivers, rx.attached = true) := by
  have hc := FanOut.counted_run hrun
  have hmail := FanOut.run_create shards cursor ls
  rw [hrun, Option.map_some] at hmail
  refine ⟨fun shards' cursor' => ?_, fun i rx hrx hlag => ?_, ?_, hc.sendToAll_iff⟩
  · have hother := FanOut.run_create shards' cursor' ls
    rw [← hmail] at hother
    exact Option.map_eq_some_iff.mp hother
  · have hget : s.mailboxes[i]? = some (s.mailbox rx) := by
      rw [FanOut.mailboxes, List.getElem?_map, hrx]
      rfl
    obtain ⟨hpre, hall⟩ := (Mailboxes.kept hmail.symm).keeps i _ hget hlag
    refine ⟨hpre, fun hatt => ?_⟩
    have hall := hall hatt
    simp only [FanOut.mailbox, hatt, if_true] at hall
    exact hall
  · rw [hc.total, List.countP_eq_length_filter]

/-- A subscriber on each side of the cursor's wrap; the creator leaves. -/
def attachAcrossWrap : List FanOutLabel :=
  let frame : BroadcastFrame := { event := { eventType := .modified, config := none }, labels := [] }
  [.attach, .send frame, .attach, .send frame, .recv 1, .recv 2, .detach 0]

theorem shards_transparent_wrap : ∃ s,
    run FanOut.step (.create 3 18446744073709551615) attachAcrossWrap = some s ∧
      s.shards.totalReceiverCount = (s.receivers.filter (·.attached)).length ∧
      ∃ s', run FanOut.step (.create 1 0) attachAcrossWrap = some s' ∧ s'.mailboxes = s.mailboxes := by
  obtain ⟨s, hs⟩ := Option.isSome_iff_exists.mp
    (show (run FanOut.step (.create 3 18446744073709551615) attachAcrossWrap).isSome = true by
      decide +kernel)
  obtain ⟨hsame, _, htotal, _⟩ := shards_transparent 3 18446744073709551615 attachAcrossWrap s hs
  exact ⟨s, hs, htotal, hsame 1 0⟩

end Konfig
