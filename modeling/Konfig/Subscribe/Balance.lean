import Konfig.Subscribe.Shards
import Konfig.Lib.RoundRobin

/-!
# How even the shards are

`get_or_create_broadcast` seen from the entry of one namespace: the first call creates the
shards and keeps the receiver of shard `0`, every later one takes the next receiver.  The
cursor starts at `0` and the creating call does not move it, so the creator is not one of
its turns: without a detach the receivers of a shard are its `turns`, and one more on
shard `0` (`Attached`).

* `Attached.step`, `attached_run`: this holds along every run.
* `shards_balanced_iff`: the counts differ by at most one exactly when the later calls
  made whole rounds.
-/

namespace Konfig

open Lib

/-- `get_or_create_broadcast`: the entry of the namespace after the call. -/
def getOrCreateBroadcast (broadcastShards : Nat) : Option FanOut → FanOut
  | some s => { shards := s.shards.nextReceiver.1, receivers := s.receivers ++ [s.shards.nextReceiver.2] }
  | none => .create broadcastShards 0

/-- One step on the entry: before the first call there is nothing to step. -/
def entryStep (broadcastShards : Nat) : Option FanOut → FanOutLabel → Option (Option FanOut)
  | entry, .attach => some (some (getOrCreateBroadcast broadcastShards entry))
  | some s, l => (s.step l).map some
  | none, _ => none

/-- The receiver counts of any two shards differ by at most one. -/
def Balanced (entry : Option FanOut) : Prop :=
  ∀ s ∈ entry, ∀ i < s.shards.senders.length, ∀ j < s.shards.senders.length,
    s.shards.countOf i ≤ s.shards.countOf j + 1

/-- What `k` calls without a detach have made of the entry. -/
structure Attached (shards k : Nat) (s : FanOut) : Prop where
  called : 0 < k
  length : s.shards.senders.length = shards
  next : s.shards.next = UInt64.ofNat (k - 1)
  count : ∀ j, s.shards.countOf j = turns (2 ^ 64) shards (k - 1) j + if j = 0 then 1 else 0

/-! ### Single steps -/

theorem ShardSet.length_dropAll : ∀ (dropped : List BroadcastReceiver) (set : ShardSet),
    (dropped.foldl ShardSet.dropReceiver set).senders.length = set.senders.length := by
  intro dropped
  induction dropped with
  | nil => intro set; rfl
  | cons rx dropped ih =>
    intro set
    exact (ih (set.dropReceiver rx)).trans (List.length_modify _ _ _)

theorem Attached.create (broadcastShards : Nat) :
    Attached (max broadcastShards MIN_BROADCAST_SHARDS) 1 (.create broadcastShards 0) where
  called := Nat.zero_lt_one
  length := (ShardSet.length_dropAll _ (ShardSet.new broadcastShards).1).trans List.length_replicate
  next := rfl
  count := by
    intro j
    rw [(FanOut.counted_create broadcastShards 0).count, FanOut.create_receivers, turns_zero,
      List.countP_singleton, zero_add]
    cases j <;> rfl

theorem Attached.attach {shards k : Nat} {s : FanOut} (h : Attached shards k s) (broadcastShards : Nat) :
    Attached shards (k + 1) (getOrCreateBroadcast broadcastShards (some s)) where
  called := Nat.succ_pos k
  length := (List.length_modify _ _ _).trans h.length
  next := by
    have hk := h.called
    change s.shards.next + 1 = _
    rw [h.next, ← UInt64.ofNat_one, ← UInt64.ofNat_add]
    congr 1
    omega
  count := by
    intro j
    have hidx : s.shards.idx = (k - 1) % 2 ^ 64 % shards := by
      rw [ShardSet.idx, h.next, h.length]
      rfl
    have hturn : k + 1 - 1 = (k - 1) + 1 := by
      have hk := h.called
      omega
    change (s.shards.modify s.shards.idx BroadcastChannel.join).countOf j = _
    rw [s.shards.countOf_join s.shards.idx_lt, h.count, hidx, hturn, turns_succ]
    omega

theorem FanOut.step_recv {s t : FanOut} {i : Nat} (h : s.step (.recv i) = some t) : t.shards = s.shards := by
  simp only [FanOut.step, Option.map_eq_some_iff] at h
  obtain ⟨_, _, rfl⟩ := h
  rfl

/-- A step that is neither an attach nor a detach. -/
theorem Attached.keep {broadcastShards shards k : Nat} {s : FanOut} {l : FanOutLabel} {entry : Option FanOut}
    (h : Attached shards k s) (hattach : l ≠ .attach) (hdetach : ∀ i, l ≠ .detach i)
    (hstep : entryStep broadcastShards (some s) l = some entry) : ∃ t, entry = some t ∧ Attached shards k t := by
  cases l with
  | attach => exact absurd rfl hattach
  | detach i => exact absurd rfl (hdetach i)
  | send frame =>
    cases hstep
    refine ⟨_, rfl, h.called, (List.length_map _).trans h.length, h.next, fun j => ?_⟩
    exact (s.shards.countOf_sendToAll frame j).trans (h.count j)
  | recv i =>
    obtain ⟨t, ht, rfl⟩ := Option.map_eq_some_iff.mp hstep
    have hsame := FanOut.step_recv ht
    refine ⟨t, rfl, h.called, ?_, ?_, fun j => ?_⟩
    · rw [hsame, h.length]
    · rw [hsame, h.next]
    · rw [hsame, h.count]

/-! ### Runs -/

/-- The entry after `k` calls. -/
def EntryAttached (broadcastShards k : Nat) : Option FanOut → Prop
  | none => k = 0
  | some s => Attached (max broadcastShards MIN_BROADCAST_SHARDS) k s

theorem EntryAttached.attach {broadcastShards k : Nat} {entry : Option FanOut}
    (h : EntryAttached broadcastShards k entry) :
    EntryAttached broadcastShards (k + 1) (some (getOrCreateBroadcast broadcastShards entry)) := by
  cases entry with
  | none =>
    obtain rfl : k = 0 := h
    exact Attached.create broadcastShards
  | some s => exact Attached.attach h broadcastShards

theorem entryAttached_run {broadcastShards : Nat} {ls : List FanOutLabel} {entry : Option FanOut}
    (hrun : run (entryStep broadcastShards) none ls = some entry) (hkept : ∀ i, .detach i ∉ ls) :
    EntryAttached broadcastShards (attaches ls) entry := by
  refine run_induction (fun ls entry => (∀ i, .detach i ∉ ls) →
    EntryAttached broadcastShards (attaches ls) entry) ?_ ?_ ls entry hrun hkept
  · intro _
    exact (rfl : attaches [] = 0)
  · intro ls entry l entry' _ ih hstep hkept
    have ih := ih fun i hi => hkept i (List.mem_append_left _ hi)
    have hdetach : ∀ i, l ≠ .detach i := fun i hi => hkept i (by simp [hi])
    by_cases hl : l = .attach
    · subst hl
      cases hstep
      rw [attaches_snoc_attach]
      exact ih.attach
    · rw [attaches_snoc hl]
      cases entry with
      | none =>
        cases l with
        | attach => exact absurd rfl hl
        | detach i | send frame | recv i => cases hstep
      | some s =>
        obtain ⟨t, rfl, ht⟩ := Attached.keep ih hl hdetach hstep
        exact ht

/-! ### The counts -/

/-- One receiver more on the first shard leaves room for nothing else. -/
theorem Attached.balanced_iff {shards k : Nat} {s : FanOut} (h : Attached shards k s) (hshards : 0 < shards) :
    Balanced (some s) ↔ ∀ j < shards, turns (2 ^ 64) shards (k - 1) j = turns (2 ^ 64) shards (k - 1) 0 := by
  unfold Balanced
  simp only [Option.mem_some_iff, forall_eq', h.length, h.count]
  constructor
  · intro hbal j hj
    rcases Nat.eq_zero_or_pos j with rfl | hpos
    · rfl
    · have hfirst := hbal 0 hshards j hj
      rw [if_pos rfl, if_neg hpos.ne'] at hfirst
      have hle := turns_antitone (k - 1) (Nat.two_pow_pos 64) (Nat.zero_le j) hj
      omega
  · intro heven i hi j hj
    rw [heven i hi, heven j hj]
    split <;> omega

/-- **When the shards are balanced.**  After any run without a detach, the counts of any two
shards differ by at most one exactly when the calls after the creating one fill whole rounds,
and no cycle of the cursor has ended within a round. -/
theorem shards_balanced_iff (broadcastShards : Nat) (ls : List FanOutLabel) (entry : Option FanOut)
    (hrun : run (entryStep broadcastShards) none ls = some entry) (hkept : ∀ i, .detach i ∉ ls) :
    Balanced entry ↔
      max broadcastShards MIN_BROADCAST_SHARDS ∣ attaches ls - 1 ∧
        (attaches ls ≤ 2 ^ 64 ∨ max broadcastShards MIN_BROADCAST_SHARDS ∣ 2 ^ 64) := by
  have hpos : 0 < max broadcastShards MIN_BROADCAST_SHARDS :=
    Nat.lt_of_lt_of_le Nat.zero_lt_one (Nat.le_max_right _ _)
  have hentry := entryAttached_run hrun hkept
  cases entry with
  | none =>
    have hnone : attaches ls = 0 := hentry
    rw [hnone]
    exact iff_of_true (fun _ hs => by cases hs) ⟨Nat.dvd_zero _, .inl (Nat.zero_le _)⟩
  | some s =>
    have hs : Attached _ (attaches ls) s := hentry
    have hcalled := hs.called
    have hwrap : attaches ls - 1 < 2 ^ 64 ↔ attaches ls ≤ 2 ^ 64 := by omega
    rw [hs.balanced_iff hpos, turns_even_iff (Nat.two_pow_pos 64) hpos, hwrap]

/-- Three calls on two shards. -/
theorem shards_balanced_iff_three : ∃ entry,
    run (entryStep 2) none [.attach, .attach, .attach] = some entry ∧ Balanced entry := by
  refine ⟨_, rfl, (shards_balanced_iff 2 [.attach, .attach, .attach] _ rfl ?_).mpr ⟨?_, .inl ?_⟩⟩
  · intro i
    simp
  · decide
  · decide

/-- Two calls on two shards: both receivers are on the first. -/
theorem shards_unbalanced_two : ∃ s,
    run (entryStep 2) none [.attach, .attach] = some (some s) ∧
      s.shards.countOf 0 = 2 ∧ s.shards.countOf 1 = 0 ∧ ¬ Balanced (some s) := by
  refine ⟨_, rfl, by decide, by decide, fun hbal => ?_⟩
  have hfirst := hbal _ rfl 0 (by decide) 1 (by decide)
  exact absurd hfirst (by decide)

end Konfig
