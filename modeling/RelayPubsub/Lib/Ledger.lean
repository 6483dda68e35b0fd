import Mathlib

/-!
# The ledger of a consumer that takes messages on lease

The bookkeeping of one consumer group over a log, with nothing of the log but
its positions and nothing of the leases but their names. A cursor separates the
positions already *taken* from those not yet reached, and a taken position is
kept in one of three places: on lease under some name, waiting to be handed out
again, or done. `Lib.Ledger.Move` lists what can happen to the ledger:

| event | what it does |
|---|---|
| `requeue k i` | the lease `k` on `i` ends, `i` waits again |
| `forfeit k i` | the lease `k` on `i` ends, and `i` goes nowhere |
| `settle k i` | the lease `k` on `i` ends, `i` is done |
| `park i` | `i` is taken and put aside to wait |
| `retire i` | `i` is taken and done at once |
| `grant k i` | `i` is taken and leased under the name `k` |
| `rewind n` | everything is forgotten and the cursor set to `n` |

*Taking* a position (`Lib.Ledger.Take`) is either removing it from those that
wait or advancing the cursor over it.

## What is proved

* `Lib.Ledger.Exclusive` – a taken position is in **at most one** place – is
  kept by every event, so a position that is done is never leased again and no
  position is leased twice at once;
* `Lib.Ledger.Retains` – a taken position is in **at least one** place – is kept
  by every event but `forfeit`, and `forfeit` always breaks it
  (`Lib.Ledger.not_retains_forfeit`).

What a whole run does is said by the events of its steps, in `Lib.Trace`.
-/

namespace Lib

/-- **The ledger of one consumer group**: the cursor, the positions done, the
lease held under each name, and the positions that wait to be handed out
again. -/
@[ext]
structure Ledger (κ : Type*) where
  /-- The first position not yet taken. -/
  cursor : ℕ
  /-- The positions that need no further delivery. -/
  done : Finset ℕ
  /-- The position leased under a name. -/
  lease : κ → Option ℕ
  /-- The positions taken, not done, and not leased. -/
  waiting : Multiset ℕ

namespace Ledger

variable {κ : Type*} [DecidableEq κ]

/-- Some name holds a lease on the position. -/
def Held (L : Ledger κ) (i : ℕ) : Prop := ∃ k, L.lease k = some i

/-- End the lease held under a name. -/
def unlease (L : Ledger κ) (k : κ) : Ledger κ := { L with lease := Function.update L.lease k none }

/-- Lease a position under a name. -/
def addLease (L : Ledger κ) (k : κ) (i : ℕ) : Ledger κ :=
  { L with lease := Function.update L.lease k (some i) }

/-- Put a position among those that wait. -/
def enqueue (L : Ledger κ) (i : ℕ) : Ledger κ := { L with waiting := i ::ₘ L.waiting }

/-- Put a position among those that are done. -/
def markDone (L : Ledger κ) (i : ℕ) : Ledger κ := { L with done := insert i L.done }

/-- Forget everything and set the cursor. -/
def rewound (n : ℕ) : Ledger κ := ⟨n, ∅, fun _ => none, 0⟩

section Fields

variable (L : Ledger κ) (k : κ) (i n : ℕ)

@[simp] theorem unlease_cursor : (L.unlease k).cursor = L.cursor := rfl
@[simp] theorem unlease_done : (L.unlease k).done = L.done := rfl
@[simp] theorem unlease_waiting : (L.unlease k).waiting = L.waiting := rfl
@[simp] theorem unlease_lease : (L.unlease k).lease = Function.update L.lease k none := rfl
@[simp] theorem addLease_cursor : (L.addLease k i).cursor = L.cursor := rfl
@[simp] theorem addLease_done : (L.addLease k i).done = L.done := rfl
@[simp] theorem addLease_waiting : (L.addLease k i).waiting = L.waiting := rfl
@[simp] theorem addLease_lease :
    (L.addLease k i).lease = Function.update L.lease k (some i) := rfl

omit [DecidableEq κ]

@[simp] theorem enqueue_cursor : (L.enqueue i).cursor = L.cursor := rfl
@[simp] theorem enqueue_done : (L.enqueue i).done = L.done := rfl
@[simp] theorem enqueue_lease : (L.enqueue i).lease = L.lease := rfl
@[simp] theorem enqueue_waiting : (L.enqueue i).waiting = i ::ₘ L.waiting := rfl
@[simp] theorem markDone_cursor : (L.markDone i).cursor = L.cursor := rfl
@[simp] theorem markDone_done : (L.markDone i).done = insert i L.done := rfl
@[simp] theorem markDone_lease : (L.markDone i).lease = L.lease := rfl
@[simp] theorem markDone_waiting : (L.markDone i).waiting = L.waiting := rfl
@[simp] theorem rewound_cursor : (rewound n : Ledger κ).cursor = n := rfl
@[simp] theorem rewound_done : (rewound n : Ledger κ).done = ∅ := rfl
@[simp] theorem rewound_lease : (rewound n : Ledger κ).lease k = none := rfl
@[simp] theorem rewound_waiting : (rewound n : Ledger κ).waiting = 0 := rfl

end Fields

/-- Ending a lease leaves the leases held under other names. -/
theorem lease_of_unlease {L : Ledger κ} {k k' : κ} {i : ℕ}
    (h : (L.unlease k).lease k' = some i) : k' ≠ k ∧ L.lease k' = some i := by
  rcases eq_or_ne k' k with rfl | hk
  · simp at h
  · exact ⟨hk, by simpa [hk] using h⟩

/-- A lease of a ledger with one more is that one or an old one. -/
theorem lease_of_addLease {L : Ledger κ} {k k' : κ} {i j : ℕ}
    (h : (L.addLease k i).lease k' = some j) :
    (k' = k ∧ j = i) ∨ (k' ≠ k ∧ L.lease k' = some j) := by
  rcases eq_or_ne k' k with rfl | hk
  · exact Or.inl ⟨rfl, by simpa using h.symm⟩
  · exact Or.inr ⟨hk, by simpa [hk] using h⟩

/-- A position held under another name than the one given up is still held. -/
theorem Held.unlease {L : Ledger κ} {k k' : κ} {i : ℕ} (hk : k' ≠ k) (h : L.lease k' = some i) :
    (L.unlease k).Held i :=
  ⟨k', by simpa [hk] using h⟩

/-- The position of a new lease is held. -/
theorem held_addLease (L : Ledger κ) (k : κ) (i : ℕ) : (L.addLease k i).Held i :=
  ⟨k, by simp⟩

/-- Leases under other names survive a new one under a free name. -/
theorem Held.addLease {L : Ledger κ} {k : κ} {i j : ℕ} (hk : L.lease k = none) (h : L.Held j) :
    (L.addLease k i).Held j := by
  obtain ⟨k', hk'⟩ := h
  have hne : k' ≠ k := by
    rintro rfl
    simp [hk] at hk'
  exact ⟨k', by simpa [hne] using hk'⟩

/-! ### Events -/

/-- What can happen to a ledger. -/
inductive Event (κ : Type*) where
  /-- The lease ends and its position waits again. -/
  | requeue (k : κ) (i : ℕ)
  /-- The lease ends and its position goes nowhere. -/
  | forfeit (k : κ) (i : ℕ)
  /-- The lease ends and its position is done. -/
  | settle (k : κ) (i : ℕ)
  /-- A position is taken and put aside to wait. -/
  | park (i : ℕ)
  /-- A position is taken and done. -/
  | retire (i : ℕ)
  /-- A position is taken and leased. -/
  | grant (k : κ) (i : ℕ)
  /-- Everything is forgotten and the cursor set. -/
  | rewind (n : ℕ)

/-- **Taking a position**: off the positions that wait, or by advancing the
cursor over it. -/
inductive Take (L : Ledger κ) (i : ℕ) : Ledger κ → Prop
  /-- The position was waiting. -/
  | queued : i ∈ L.waiting → Take L i { L with waiting := L.waiting.erase i }
  /-- The position is the next one not yet taken. -/
  | next : i = L.cursor → Take L i { L with cursor := L.cursor + 1 }

/-- **One event on a ledger.** -/
inductive Move (L : Ledger κ) : Event κ → Ledger κ → Prop
  | requeue {k : κ} {i : ℕ} : L.lease k = some i → Move L (.requeue k i) ((L.unlease k).enqueue i)
  | forfeit {k : κ} {i : ℕ} : L.lease k = some i → Move L (.forfeit k i) (L.unlease k)
  | settle {k : κ} {i : ℕ} : L.lease k = some i → Move L (.settle k i) ((L.unlease k).markDone i)
  | park {i : ℕ} {M : Ledger κ} : Take L i M → Move L (.park i) (M.enqueue i)
  | retire {i : ℕ} {M : Ledger κ} : Take L i M → Move L (.retire i) (M.markDone i)
  | grant {k : κ} {i : ℕ} {M : Ledger κ} : Take L i M → L.lease k = none →
      Move L (.grant k i) (M.addLease k i)
  | rewind (n : ℕ) : Move L (.rewind n) (rewound n)

/-- The event sets the cursor back or forth. -/
def Event.IsRewind : Event κ → Prop
  | .rewind _ => True
  | _ => False

/-- The event loses a position. -/
def Event.IsForfeit : Event κ → Prop
  | .forfeit _ _ => True
  | _ => False

/-- The event hands out what is not leased, and touches no lease: what a single
visit of a consumer does. -/
def Event.IsService : Event κ → Prop
  | .park _ | .retire _ | .grant _ _ => True
  | _ => False

omit [DecidableEq κ] in
/-- A visit does not set the cursor anew. -/
theorem Event.not_isRewind_of_isService {e : Event κ} (h : e.IsService) : ¬e.IsRewind := by
  cases e with
  | rewind _ => exact absurd h id
  | _ => exact id

/-! ### Taking a position -/

omit [DecidableEq κ] in
/-- Taking a position touches no lease. -/
@[simp] theorem Take.lease_eq {L M : Ledger κ} {i : ℕ} (h : Take L i M) : M.lease = L.lease := by
  cases h <;> rfl

omit [DecidableEq κ] in
/-- Taking a position settles nothing. -/
@[simp] theorem Take.done_eq {L M : Ledger κ} {i : ℕ} (h : Take L i M) : M.done = L.done := by
  cases h <;> rfl

omit [DecidableEq κ] in
/-- The cursor only advances. -/
theorem Take.cursor_le {L M : Ledger κ} {i : ℕ} (h : Take L i M) : L.cursor ≤ M.cursor := by
  cases h
  · exact le_rfl
  · exact Nat.le_succ _

omit [DecidableEq κ] in
theorem Take.held_iff {L M : Ledger κ} {i j : ℕ} (h : Take L i M) : M.Held j ↔ L.Held j := by
  rw [Held, Held, h.lease_eq]

/-! ### At most one place -/

/-- **A taken position is in at most one place**, and what is in a place has
been taken. -/
structure Exclusive (L : Ledger κ) : Prop where
  /-- No position is leased under two names. -/
  lease_inj : ∀ {k k' i}, L.lease k = some i → L.lease k' = some i → k = k'
  /-- No position waits twice. -/
  nodup : L.waiting.Nodup
  /-- A leased position is not done. -/
  lease_done : ∀ {k i}, L.lease k = some i → i ∉ L.done
  /-- A leased position does not wait. -/
  lease_waiting : ∀ {k i}, L.lease k = some i → i ∉ L.waiting
  /-- A waiting position is not done. -/
  waiting_done : ∀ {i}, i ∈ L.waiting → i ∉ L.done
  /-- A leased position has been taken. -/
  lease_lt : ∀ {k i}, L.lease k = some i → i < L.cursor
  /-- A waiting position has been taken. -/
  waiting_lt : ∀ {i}, i ∈ L.waiting → i < L.cursor
  /-- A done position has been taken. -/
  done_lt : ∀ {i}, i ∈ L.done → i < L.cursor

/-- **A position in hand**: taken, and put nowhere yet. -/
structure Free (L : Ledger κ) (i : ℕ) : Prop where
  lt : i < L.cursor
  done : i ∉ L.done
  waiting : i ∉ L.waiting
  held : ¬L.Held i

omit [DecidableEq κ] in
/-- A ledger whose places are all empty is exclusive. -/
theorem exclusive_rewound (n : ℕ) : Exclusive (rewound n : Ledger κ) := by
  constructor <;> simp

namespace Exclusive

variable {L M : Ledger κ} {k : κ} {i : ℕ}

omit [DecidableEq κ] in
/-- A held position is not done. -/
theorem not_done_of_held (h : Exclusive L) (hi : L.Held i) : i ∉ L.done :=
  hi.elim fun _ hk => h.lease_done hk

omit [DecidableEq κ] in
/-- **Taking keeps the places apart**, and puts the position in hand. -/
theorem take (h : Exclusive L) (ht : Take L i M) : Exclusive M ∧ M.Free i := by
  cases ht with
  | queued hi =>
    have hsub : ∀ {j}, j ∈ L.waiting.erase i → j ∈ L.waiting :=
      fun hj => Multiset.mem_of_mem_erase hj
    refine ⟨{ h with
      nodup := h.nodup.erase i
      lease_waiting := fun hk hj => h.lease_waiting hk (hsub hj)
      waiting_done := fun hj => h.waiting_done (hsub hj)
      waiting_lt := fun hj => h.waiting_lt (hsub hj) }, ?_⟩
    refine ⟨h.waiting_lt hi, h.waiting_done hi, h.nodup.notMem_erase, ?_⟩
    rintro ⟨k, hk⟩
    exact h.lease_waiting hk hi
  | next hi =>
    refine ⟨{ h with
      lease_lt := fun hk => (h.lease_lt hk).trans (Nat.lt_succ_self _)
      waiting_lt := fun hj => (h.waiting_lt hj).trans (Nat.lt_succ_self _)
      done_lt := fun hj => (h.done_lt hj).trans (Nat.lt_succ_self _) }, ?_⟩
    subst hi
    refine ⟨Nat.lt_succ_self _, fun hd => (h.done_lt hd).false,
      fun hw => (h.waiting_lt hw).false, ?_⟩
    rintro ⟨k, hk⟩
    exact (h.lease_lt hk).false

/-- Ending a lease keeps the places apart, and puts its position in hand. -/
theorem unlease (h : Exclusive L) (hk : L.lease k = some i) :
    Exclusive (L.unlease k) ∧ (L.unlease k).Free i := by
  refine ⟨{
    lease_inj := fun h₁ h₂ => h.lease_inj (lease_of_unlease h₁).2 (lease_of_unlease h₂).2
    nodup := h.nodup
    lease_done := fun h₁ => h.lease_done (lease_of_unlease h₁).2
    lease_waiting := fun h₁ => h.lease_waiting (lease_of_unlease h₁).2
    waiting_done := h.waiting_done
    lease_lt := fun h₁ => h.lease_lt (lease_of_unlease h₁).2
    waiting_lt := h.waiting_lt
    done_lt := h.done_lt }, h.lease_lt hk, h.lease_done hk, h.lease_waiting hk, ?_⟩
  rintro ⟨k', hk'⟩
  obtain ⟨hne, hk'⟩ := lease_of_unlease hk'
  exact hne (h.lease_inj hk' hk)

omit [DecidableEq κ] in
/-- A position in hand may be put among those that wait. -/
theorem enqueue (h : Exclusive L) (hi : L.Free i) : Exclusive (L.enqueue i) where
  lease_inj := h.lease_inj
  nodup := Multiset.nodup_cons.mpr ⟨hi.waiting, h.nodup⟩
  lease_done := h.lease_done
  lease_waiting := by
    intro k j hk hj
    rcases Multiset.mem_cons.mp hj with rfl | hj
    · exact hi.held ⟨k, hk⟩
    · exact h.lease_waiting hk hj
  waiting_done := by
    intro j hj
    rcases Multiset.mem_cons.mp hj with rfl | hj
    · exact hi.done
    · exact h.waiting_done hj
  lease_lt := h.lease_lt
  waiting_lt := by
    intro j hj
    rcases Multiset.mem_cons.mp hj with rfl | hj
    · exact hi.lt
    · exact h.waiting_lt hj
  done_lt := h.done_lt

omit [DecidableEq κ] in
/-- A position in hand may be put among those that are done. -/
theorem markDone (h : Exclusive L) (hi : L.Free i) : Exclusive (L.markDone i) where
  lease_inj := h.lease_inj
  nodup := h.nodup
  lease_done := by
    intro k j hk hj
    rcases Finset.mem_insert.mp hj with rfl | hj
    · exact hi.held ⟨k, hk⟩
    · exact h.lease_done hk hj
  lease_waiting := h.lease_waiting
  waiting_done := by
    intro j hw hj
    rcases Finset.mem_insert.mp hj with rfl | hj
    · exact hi.waiting hw
    · exact h.waiting_done hw hj
  lease_lt := h.lease_lt
  waiting_lt := h.waiting_lt
  done_lt := by
    intro j hj
    rcases Finset.mem_insert.mp hj with rfl | hj
    · exact hi.lt
    · exact h.done_lt hj

/-- A position in hand may be leased under a free name. -/
theorem addLease (h : Exclusive L) (hi : L.Free i) : Exclusive (L.addLease k i) where
  lease_inj := by
    intro k₁ k₂ j h₁ h₂
    rcases lease_of_addLease h₁ with ⟨hk₁, hj₁⟩ | ⟨-, h₁⟩ <;>
      rcases lease_of_addLease h₂ with ⟨hk₂, hj₂⟩ | ⟨-, h₂⟩
    · exact hk₁.trans hk₂.symm
    · exact absurd ⟨k₂, hj₁ ▸ h₂⟩ hi.held
    · exact absurd ⟨k₁, hj₂ ▸ h₁⟩ hi.held
    · exact h.lease_inj h₁ h₂
  nodup := h.nodup
  lease_done := by
    intro k' j h₁
    rcases lease_of_addLease h₁ with ⟨-, rfl⟩ | ⟨-, h₁⟩
    · exact hi.done
    · exact h.lease_done h₁
  lease_waiting := by
    intro k' j h₁
    rcases lease_of_addLease h₁ with ⟨-, rfl⟩ | ⟨-, h₁⟩
    · exact hi.waiting
    · exact h.lease_waiting h₁
  waiting_done := h.waiting_done
  lease_lt := by
    intro k' j h₁
    rcases lease_of_addLease h₁ with ⟨-, rfl⟩ | ⟨-, h₁⟩
    · exact hi.lt
    · exact h.lease_lt h₁
  waiting_lt := h.waiting_lt
  done_lt := h.done_lt

/-- **Every event keeps the places apart.** -/
theorem move {e : Event κ} (h : Exclusive L) (hm : Move L e M) : Exclusive M := by
  cases hm with
  | requeue hk => exact (h.unlease hk).1.enqueue (h.unlease hk).2
  | forfeit hk => exact (h.unlease hk).1
  | settle hk => exact (h.unlease hk).1.markDone (h.unlease hk).2
  | park ht => exact (h.take ht).1.enqueue (h.take ht).2
  | retire ht => exact (h.take ht).1.markDone (h.take ht).2
  | grant ht _ => exact (h.take ht).1.addLease (h.take ht).2
  | rewind n => exact exclusive_rewound n

end Exclusive

/-! ### At least one place -/

/-- The position is in one of the three places. -/
def Placed (L : Ledger κ) (i : ℕ) : Prop := i ∈ L.done ∨ L.Held i ∨ i ∈ L.waiting

/-- The position is in some place, once it is taken. -/
def Kept (L : Ledger κ) (i : ℕ) : Prop := i < L.cursor → L.Placed i

/-- **Every position taken since `base` is in some place.** -/
def Retains (base : ℕ) (L : Ledger κ) : Prop := ∀ i, base ≤ i → i < L.cursor → L.Placed i

/-- Nothing below `base` is in any place: the consumer has had nothing to do
with it. -/
structure Above (base : ℕ) (L : Ledger κ) : Prop where
  cursor : base ≤ L.cursor
  lease : ∀ {k i}, L.lease k = some i → base ≤ i
  waiting : ∀ {i}, i ∈ L.waiting → base ≤ i
  done : ∀ {i}, i ∈ L.done → base ≤ i

section Places

variable {L M : Ledger κ} {k : κ} {i j base : ℕ}

omit [DecidableEq κ] in
theorem Placed.enqueue (h : L.Placed j) : (L.enqueue i).Placed j :=
  h.imp_right (Or.imp_right (Multiset.mem_cons_of_mem))

omit [DecidableEq κ] in
theorem Placed.markDone (h : L.Placed j) : (L.markDone i).Placed j :=
  h.imp_left Finset.mem_insert_of_mem

theorem Placed.addLease (hk : L.lease k = none) (h : L.Placed j) : (L.addLease k i).Placed j :=
  h.imp_right (Or.imp_left (Held.addLease hk))

/-- Ending the lease on one position leaves the others where they are. -/
theorem Placed.unlease (hk : L.lease k = some i) (hji : j ≠ i) (h : L.Placed j) :
    (L.unlease k).Placed j := by
  refine h.imp_right (Or.imp_left ?_)
  rintro ⟨k', hk'⟩
  refine Held.unlease (fun hkk => hji ?_) hk'
  rw [hkk, hk] at hk'
  exact (Option.some.inj hk').symm

omit [DecidableEq κ] in
/-- Taking one position leaves the others where they are. -/
theorem Placed.take (ht : Take L i M) (hji : j ≠ i) (h : L.Placed j) : M.Placed j := by
  cases ht with
  | queued _ => exact h.imp_right (Or.imp_right (Multiset.mem_erase_of_ne hji).mpr)
  | next _ => exact h

omit [DecidableEq κ] in
/-- After taking a position, another one that was kept is in a place, if it is taken. -/
theorem Kept.take (h : L.Kept j) (ht : Take L i M) (hjM : j < M.cursor) (hji : j ≠ i) :
    M.Placed j := by
  refine Placed.take ht hji (h ?_)
  cases ht with
  | queued _ => exact hjM
  | next hi =>
    have hlt : j < L.cursor + 1 := hjM
    omega

omit [DecidableEq κ] in
/-- Nothing is lost on a ledger that has just been set to `n`. -/
theorem retains_rewound (n : ℕ) : (rewound n : Ledger κ).Retains n :=
  fun _ hn hlt => absurd hlt (Nat.not_lt.mpr hn)

omit [DecidableEq κ] in
theorem above_rewound (n : ℕ) : (rewound n : Ledger κ).Above n := by
  constructor <;> simp

/-- **Every event but a forfeit keeps a position in some place**, as long as the cursor
is not set anew. -/
theorem Kept.move {e : Event κ} (h : L.Kept j) (hm : Move L e M) (hf : ¬e.IsForfeit)
    (hr : ¬e.IsRewind) : M.Kept j := by
  intro hjM
  cases hm with
  | @requeue k i hk =>
    rcases eq_or_ne j i with rfl | hji
    · exact Or.inr (Or.inr (Multiset.mem_cons_self _ _))
    · exact ((h hjM).unlease hk hji).enqueue
  | forfeit _ => exact absurd trivial hf
  | @settle k i hk =>
    rcases eq_or_ne j i with rfl | hji
    · exact Or.inl (Finset.mem_insert_self _ _)
    · exact ((h hjM).unlease hk hji).markDone
  | @park i M ht =>
    rcases eq_or_ne j i with rfl | hji
    · exact Or.inr (Or.inr (Multiset.mem_cons_self _ _))
    · exact (h.take ht hjM hji).enqueue
  | @retire i M ht =>
    rcases eq_or_ne j i with rfl | hji
    · exact Or.inl (Finset.mem_insert_self _ _)
    · exact (h.take ht hjM hji).markDone
  | @grant k i M ht hk =>
    rcases eq_or_ne j i with rfl | hji
    · exact Or.inr (Or.inl (held_addLease M k j))
    · exact (h.take ht hjM hji).addLease (by rw [ht.lease_eq, hk])
  | rewind _ => exact absurd trivial hr

/-- So every event but a forfeit keeps every taken position in some place. -/
theorem Retains.move {e : Event κ} (h : L.Retains base) (hm : Move L e M) (hf : ¬e.IsForfeit)
    (hr : ¬e.IsRewind) : M.Retains base :=
  fun j hj => Kept.move (h j hj) hm hf hr

/-- **A forfeit loses its position**: no other place has it. -/
theorem not_retains_forfeit (hx : Exclusive L) (ha : L.Above base) (hk : L.lease k = some i) :
    ¬(L.unlease k).Retains base := by
  intro h
  obtain ⟨-, hfree⟩ := hx.unlease hk
  rcases h i (ha.lease hk) hfree.lt with hd | hh | hw
  · exact hfree.done hd
  · exact hfree.held hh
  · exact hfree.waiting hw

omit [DecidableEq κ] in
/-- A taken position lies above `base`. -/
theorem Above.take (h : L.Above base) (ht : Take L i M) : M.Above base ∧ base ≤ i := by
  cases ht with
  | queued hi =>
    exact ⟨{ h with waiting := fun hj => h.waiting (Multiset.mem_of_mem_erase hj) }, h.waiting hi⟩
  | next hi => exact ⟨{ h with cursor := h.cursor.trans (Nat.le_succ _) }, hi ▸ h.cursor⟩

theorem Above.unlease (h : L.Above base) : (L.unlease k).Above base :=
  { h with lease := fun hk => h.lease (lease_of_unlease hk).2 }

omit [DecidableEq κ] in
theorem Above.enqueue (h : L.Above base) (hi : base ≤ i) : (L.enqueue i).Above base :=
  { h with waiting := fun hj => (Multiset.mem_cons.mp hj).elim (fun hji => hji ▸ hi) h.waiting }

omit [DecidableEq κ] in
theorem Above.markDone (h : L.Above base) (hi : base ≤ i) : (L.markDone i).Above base :=
  { h with done := fun hj => (Finset.mem_insert.mp hj).elim (fun hji => hji ▸ hi) h.done }

/-- Nothing below `base` gets into any place, as long as the cursor is not set
anew. -/
theorem Above.move {e : Event κ} (h : L.Above base) (hm : Move L e M) (hr : ¬e.IsRewind) :
    M.Above base := by
  cases hm with
  | requeue hk => exact h.unlease.enqueue (h.lease hk)
  | forfeit _ => exact h.unlease
  | settle hk => exact h.unlease.markDone (h.lease hk)
  | park ht => exact (h.take ht).1.enqueue (h.take ht).2
  | retire ht => exact (h.take ht).1.markDone (h.take ht).2
  | grant ht _ =>
    refine { (h.take ht).1 with lease := fun hk => ?_ }
    rcases lease_of_addLease hk with ⟨-, rfl⟩ | ⟨-, hk⟩
    · exact (h.take ht).2
    · exact (h.take ht).1.lease hk
  | rewind _ => exact absurd trivial hr

end Places

end Ledger

end Lib
