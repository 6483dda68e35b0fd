import RelayPubsub.Memory.State

/-!
# Ordering keys

What `ordering_blocked` computes, said without its scan: an index is blocked
when an *earlier* index of the log carries the same nonempty key and is not
acked (`RelayPubsub.Memory.orderingBlocked_eq_true_iff`). The test for a live
lease in the scan decides nothing, as an index that passes the test for `acked`
blocks anyway.
-/

namespace RelayPubsub.Memory

open Lib

/-- **Two positions of a log hold messages of one ordering key**, a nonempty
one. -/
def SameKey (log : List RelayMessage) (i j : ℕ) : Prop :=
  ∃ m n, log[i]? = some m ∧ log[j]? = some n ∧ m.orderingKey = n.orderingKey ∧ n.orderingKey ≠ []

theorem SameKey.symm {log : List RelayMessage} {i j : ℕ} (h : SameKey log i j) :
    SameKey log j i := by
  obtain ⟨m, n, hm, hn, hkey, hne⟩ := h
  exact ⟨n, m, hn, hm, hkey.symm, hkey ▸ hne⟩

theorem SameKey.trans {log : List RelayMessage} {i j k : ℕ} (h : SameKey log i j)
    (h' : SameKey log j k) : SameKey log i k := by
  obtain ⟨m, n, hm, hn, hkey, -⟩ := h
  obtain ⟨n', o, hn', ho, hkey', hne⟩ := h'
  rw [hn] at hn'
  obtain rfl := Option.some.inj hn'
  exact ⟨m, o, hm, ho, hkey.trans hkey', hne⟩

theorem SameKey.lt {log : List RelayMessage} {i j : ℕ} (h : SameKey log i j) : j < log.length := by
  obtain ⟨_, n, -, hn, -, -⟩ := h
  exact (List.getElem?_eq_some_iff.mp hn).1

/-- A log that has grown has the same keys at the old positions. -/
theorem sameKey_of_isPrefix {log log' : List RelayMessage} (hp : log <+: log') {i j : ℕ}
    (hi : i < log.length) (hj : j < log.length) : SameKey log' i j ↔ SameKey log i j := by
  obtain ⟨rest, rfl⟩ := hp
  rw [SameKey, SameKey, List.getElem?_append_left hi, List.getElem?_append_left hj]

variable {sub : SubscriptionState} {topic : TopicState} {index : ℕ} {now : Time}

/-- The scan finds an unacked message of the key. -/
theorem orderingScan_eq_true_iff {key : Text} (log : List RelayMessage) (i : ℕ) :
    orderingScan sub key now i log = true ↔
      ∃ j m, log[j]? = some m ∧ m.orderingKey = key ∧ i + j ∉ sub.acked := by
  induction log generalizing i with
  | nil => simp [orderingScan]
  | cons msg rest ih =>
    -- the head of the list is position `i`, and the rest is scanned from `i + 1`
    have hrest : (∃ j m, (msg :: rest)[j]? = some m ∧ m.orderingKey = key ∧ i + j ∉ sub.acked) ↔
        (msg.orderingKey = key ∧ i ∉ sub.acked) ∨
          ∃ j m, rest[j]? = some m ∧ m.orderingKey = key ∧ i + 1 + j ∉ sub.acked := by
      constructor
      · rintro ⟨j, m, hm, hkey, hj⟩
        cases j with
        | zero =>
          obtain rfl : msg = m := by simpa using hm
          exact Or.inl ⟨hkey, by simpa using hj⟩
        | succ j =>
          refine Or.inr ⟨j, m, by simpa using hm, hkey, ?_⟩
          rwa [Nat.add_right_comm, Nat.add_assoc]
      · rintro (⟨hkey, hi⟩ | ⟨j, m, hm, hkey, hj⟩)
        · exact ⟨0, msg, rfl, hkey, by simpa using hi⟩
        · refine ⟨j + 1, m, by simpa using hm, hkey, ?_⟩
          rwa [← Nat.add_assoc, Nat.add_right_comm]
    rw [hrest]
    unfold orderingScan
    split_ifs with hkey hacked hleased
    · simp [ih, hkey]
    · simp [ih, hacked]
    · simp [not_not.mp hkey, hacked]
    · simp [not_not.mp hkey, hacked]

/-- **When an index is blocked.** -/
theorem orderingBlocked_eq_true_iff :
    orderingBlocked sub topic index now = some true ↔
      sub.spec.enableMessageOrdering = true ∧
        ∃ j < index, SameKey topic.messages j index ∧ j ∉ sub.acked := by
  unfold orderingBlocked
  split
  · rename_i hoff
    have hoff : sub.spec.enableMessageOrdering = false := by simpa using hoff
    simp [hoff]
  rename_i hon
  have hon : sub.spec.enableMessageOrdering = true := by simpa using hon
  split
  · rename_i hnone
    simp [SameKey, hnone]
  rename_i message hmessage
  split
  · rename_i hkey
    simp [SameKey, hmessage, hkey]
  · rename_i hkey
    rw [Option.some.injEq, orderingScan_eq_true_iff]
    refine Iff.trans ?_ (and_iff_right hon).symm
    constructor
    · rintro ⟨j, m, hm, hmkey, hj⟩
      rw [List.getElem?_take] at hm
      split_ifs at hm with hlt
      exact ⟨j, hlt, ⟨m, message, hm, hmessage, hmkey, hkey⟩, by simpa using hj⟩
    · rintro ⟨j, hlt, ⟨m, n, hm, hn, hmn, -⟩, hj⟩
      rw [hmessage] at hn
      obtain rfl := Option.some.inj hn
      refine ⟨j, m, ?_, hmn, by simpa using hj⟩
      rw [List.getElem?_take_of_lt hlt, hm]

/-- **When an index is not blocked**: the earlier ones of its key are acked. -/
theorem acked_of_orderingBlocked_false (h : orderingBlocked sub topic index now = some false)
    (hon : sub.spec.enableMessageOrdering = true) {j : ℕ} (hj : j < index)
    (hkey : SameKey topic.messages j index) : j ∈ sub.acked := by
  by_contra hacked
  have htrue : orderingBlocked sub topic index now = some true :=
    orderingBlocked_eq_true_iff.mpr ⟨hon, j, hj, hkey, hacked⟩
  rw [h] at htrue
  cases htrue

end RelayPubsub.Memory
