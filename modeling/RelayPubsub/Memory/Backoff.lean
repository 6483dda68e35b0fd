import RelayPubsub.Memory.Admission
import RelayPubsub.Memory.Attempts
import RelayPubsub.Memory.Clock

/-!
# Retry backoff

How long a message waits for its next delivery, and that it does.

The delay is `min · 2 ^ (attempt - 1)`, with the exponent limited to `10` and the delay to
`max`, or to `min` if that is greater (`RelayPubsub.Memory.backoffSeconds_toNat`). All the
arithmetic of the source stays within its bounds
(`RelayPubsub.Memory.backoffSecondsOrPanic_eq_some`), although it is on `u32` and `clamp`
panics when its bounds are the wrong way round.

When a lease ends by a negative acknowledgement or by running out, the index is in the
retry queue once, with the time its delay is over, and below the cursor
(`RelayPubsub.Memory.Waits`). A pull takes ready entries only, and what it puts back
because of the ordering it has taken before; so an entry that is not ready stays as it is
(`RelayPubsub.Memory.backoff_honoured`).
-/

namespace RelayPubsub.Memory

open Lib Lib.Ledger

/-! ### The delay -/

/-- The minimum and the maximum of the retry policy, in seconds, or of the default. -/
def retryBounds (spec : SubscriptionSpec) : UInt32 × UInt32 :=
  match spec.retry with
  | some r => (r.minimumBackoffSeconds, r.maximumBackoffSeconds)
  | none => (10, 600)

/-- `u32::saturating_mul`. -/
def saturatingMul (a b : UInt32) : UInt32 := UInt32.ofNat (min (a.toNat * b.toNat) (2 ^ 32 - 1))

/-- `1u32 << shift`, which overflows from 32 places on. -/
def shlOrPanic (shift : UInt32) : Option UInt32 := if shift < 32 then some (1 <<< shift) else none

/-- `u32::clamp`, which panics when its bounds are the wrong way round. -/
def clampOrPanic (n lo hi : UInt32) : Option UInt32 :=
  if lo ≤ hi then some (clamp n lo hi) else none

/-- **`MemoryBackend::backoff_seconds` with its panics**: `RelayPubsub.Memory.backoffSeconds`,
where an operation that overflows or panics is `none`. -/
def backoffSecondsOrPanic (spec : SubscriptionSpec) (attempt : UInt32) : Option UInt32 :=
  let (minB, maxB) : UInt32 × UInt32 :=
    match spec.retry with
    | some r => (r.minimumBackoffSeconds, max r.maximumBackoffSeconds r.minimumBackoffSeconds)
    | none => (10, 600)
  if maxB = 0 then some 0
  else do
    let exp := min (if attempt = 0 then 0 else attempt - 1) 10
    let factor ← shlOrPanic (min exp 16)
    clampOrPanic (saturatingMul minB factor) minB (max maxB 1)

section Delay

variable (spec : SubscriptionSpec) (attempt : UInt32)

/-- The exponent of the delay. -/
theorem toNat_exponent :
    (min (if attempt = 0 then 0 else attempt - 1) 10 : UInt32).toNat =
      min (attempt.toNat - 1) 10 := by
  rw [toNat_min]
  split_ifs with hzero
  · rw [hzero]
    rfl
  · have hpos : 1 ≤ attempt := by
      rw [UInt32.le_iff_toNat_le]
      have hne : attempt.toNat ≠ 0 := fun h => hzero (UInt32.toNat_inj.mp h)
      simp only [UInt32.reduceToNat]
      omega
    rw [UInt32.toNat_sub_of_le _ _ hpos]
    rfl

/-- What the delay is computed from: the minimum, and the maximum or the minimum if that is
greater. -/
theorem exists_backoff_eq : ∃ lo hi : UInt32, lo = (retryBounds spec).1 ∧
    hi.toNat = max (retryBounds spec).1.toNat (retryBounds spec).2.toNat ∧
    (∀ attempt, backoffSeconds spec attempt = if hi = 0 then 0 else
      clamp (UInt32.ofNat (min
        (lo.toNat * 2 ^ (min (min (if attempt = 0 then 0 else attempt - 1) 10) 16 : UInt32).toNat)
        (2 ^ 32 - 1))) lo (max hi 1)) ∧
    ∀ attempt, backoffSecondsOrPanic spec attempt = if hi = 0 then some 0 else
      (shlOrPanic (min (min (if attempt = 0 then 0 else attempt - 1) 10) 16)).bind fun factor =>
        clampOrPanic (saturatingMul lo factor) lo (max hi 1) := by
  unfold retryBounds backoffSeconds backoffSecondsOrPanic
  rcases spec.retry with - | r
  · exact ⟨10, 600, rfl, rfl, fun _ => rfl, fun _ => rfl⟩
  · refine ⟨_, max r.maximumBackoffSeconds r.minimumBackoffSeconds, rfl, ?_, fun _ => rfl,
      fun _ => rfl⟩
    rw [toNat_max]
    exact max_comm _ _

/-- The exponent stays below the second limit, which the source sets at `16`. -/
theorem toNat_shift :
    (min (min (if attempt = 0 then 0 else attempt - 1) 10) 16 : UInt32).toNat =
      min (attempt.toNat - 1) 10 := by
  rw [toNat_min, toNat_exponent]
  simp only [UInt32.reduceToNat]
  omega

/-- The minimum is not above what is clamped to it. -/
theorem le_product (lo : UInt32) (e : ℕ) : lo.toNat ≤ min (lo.toNat * 2 ^ e) (2 ^ 32 - 1) := by
  have hpow : lo.toNat * 1 ≤ lo.toNat * 2 ^ e := Nat.mul_le_mul_left _ Nat.one_le_two_pow
  have hlt := lo.toNat_lt
  omega

/-- **The delay**, in closed form. -/
theorem backoffSeconds_toNat :
    (backoffSeconds spec attempt).toNat =
      min ((retryBounds spec).1.toNat * 2 ^ min (attempt.toNat - 1) 10)
        (max (retryBounds spec).1.toNat (retryBounds spec).2.toNat) := by
  obtain ⟨lo, hi, hlo, hhi, hback, -⟩ := exists_backoff_eq spec
  rw [← hhi, ← hlo, hback, toNat_shift]
  have hle : lo.toNat ≤ hi.toNat := by
    rw [hhi, hlo]
    exact le_max_left _ _
  generalize min (attempt.toNat - 1) 10 = e
  split_ifs with hzero
  · subst hzero
    exact (Nat.min_zero _).symm
  · have hpos : hi.toNat ≠ 0 := fun h => hzero (UInt32.toNat_inj.mp h)
    have hmax : (max hi 1).toNat = hi.toNat := by
      rw [toNat_max]
      simp only [UInt32.reduceToNat]
      omega
    have hproduct := UInt32.toNat_ofNat_of_lt' (n := min (lo.toNat * 2 ^ e) (2 ^ 32 - 1)) (by
      simp only [UInt32.size]
      omega)
    have hproduct_le := le_product lo e
    have hlt := hi.toNat_lt
    rw [toNat_clamp (by omega), hproduct, hmax]
    omega

/-- **Nothing overflows, and the bounds of the clamp are the right way round.** -/
theorem backoffSecondsOrPanic_eq_some :
    backoffSecondsOrPanic spec attempt = some (backoffSeconds spec attempt) := by
  obtain ⟨lo, hi, hlo, hhi, hback, hpanic⟩ := exists_backoff_eq spec
  rw [hback, hpanic]
  by_cases hzero : hi = 0
  · rw [if_pos hzero, if_pos hzero]
  rw [if_neg hzero, if_neg hzero]
  have hshift := toNat_shift attempt
  generalize (min (min (if attempt = 0 then 0 else attempt - 1) 10) 16 : UInt32) = shift at hshift ⊢
  have hlt : shift < 32 := by
    rw [UInt32.lt_iff_toNat_lt]
    simp only [UInt32.reduceToNat]
    omega
  have hfactor : ((1 : UInt32) <<< shift).toNat = 2 ^ shift.toNat := by
    rw [UInt32.lt_iff_toNat_lt] at hlt
    simp only [UInt32.reduceToNat] at hlt
    rw [UInt32.toNat_shiftLeft, Nat.mod_eq_of_lt hlt, UInt32.toNat_one, Nat.one_shiftLeft,
      Nat.mod_eq_of_lt (Nat.pow_lt_pow_right (by decide) hlt)]
  have hbounds : lo ≤ max hi 1 := by
    rw [UInt32.le_iff_toNat_le, toNat_max, hhi, ← hlo]
    omega
  rw [shlOrPanic, if_pos hlt, Option.bind_some, clampOrPanic, if_pos hbounds, saturatingMul,
    hfactor]

/-- **The delays of a retry policy.** -/
structure BackoffLaw (spec : SubscriptionSpec) : Prop where
  total : ∀ attempt, backoffSecondsOrPanic spec attempt = some (backoffSeconds spec attempt)
  lower : ∀ attempt, (retryBounds spec).1.toNat ≤ (backoffSeconds spec attempt).toNat
  upper : ∀ attempt, (backoffSeconds spec attempt).toNat ≤
    max (retryBounds spec).1.toNat (retryBounds spec).2.toNat
  monotone : ∀ a b : UInt32, a.toNat ≤ b.toNat →
    (backoffSeconds spec a).toNat ≤ (backoffSeconds spec b).toNat
  /-- The next delay is twice the one before, up to the maximum. -/
  doubles : ∀ a b : UInt32, 1 ≤ a.toNat → a.toNat ≤ 10 → b.toNat = a.toNat + 1 →
    (backoffSeconds spec b).toNat = min (2 * (backoffSeconds spec a).toNat)
      (max (retryBounds spec).1.toNat (retryBounds spec).2.toNat)
  /-- From the limit of the exponent on the delay stays the same. -/
  limited : ∀ a b : UInt32, 11 ≤ a.toNat → 11 ≤ b.toNat →
    backoffSeconds spec a = backoffSeconds spec b

theorem backoffLaw : BackoffLaw spec := by
  refine
    { total := backoffSecondsOrPanic_eq_some spec
      lower := fun attempt => ?_
      upper := fun attempt => ?_
      monotone := fun a b hab => ?_
      doubles := fun a b hone hten hb => ?_
      limited := fun a b ha hb => ?_ }
  · have hpow : (retryBounds spec).1.toNat * 1 ≤
        (retryBounds spec).1.toNat * 2 ^ min (attempt.toNat - 1) 10 :=
      Nat.mul_le_mul_left _ Nat.one_le_two_pow
    rw [backoffSeconds_toNat]
    omega
  · rw [backoffSeconds_toNat]
    exact min_le_right _ _
  · rw [backoffSeconds_toNat, backoffSeconds_toNat]
    have hexp : min (a.toNat - 1) 10 ≤ min (b.toNat - 1) 10 := by omega
    have hpow := Nat.pow_le_pow_right (n := 2) (by decide) hexp
    exact min_le_min_right _ (Nat.mul_le_mul_left _ hpow)
  · have hexp : min (b.toNat - 1) 10 = min (a.toNat - 1) 10 + 1 := by omega
    rw [backoffSeconds_toNat, backoffSeconds_toNat, hexp, pow_succ, ← mul_assoc]
    omega
  · have ha' : min (a.toNat - 1) 10 = 10 := by omega
    have hb' : min (b.toNat - 1) 10 = 10 := by omega
    rw [← UInt32.toNat_inj, backoffSeconds_toNat, backoffSeconds_toNat, ha', hb']

end Delay

/-! ### Waiting -/

/-- **The index waits**, at least until the time `due`: it has been taken off the log, has
no lease, and is not ready earlier. -/
structure Waits (i : ℕ) (due : Time) (sub : SubscriptionState) : Prop where
  below : i < sub.nextIndex
  unleased : ∀ (ackId : Text) (entry : Inflight), sub.inflight[ackId]? = some entry →
    entry.topicIndex ≠ i
  later : ∀ e ∈ sub.retryQueue, e.topicIndex = i → due ≤ e.availableAt

section Waiting

variable {env : Env} {subscription topicName : Text} {topicLen i : ℕ} {due now : Time}
  {sub sub' : SubscriptionState} {p p' : Pulling}

/-- **What is taken before the time is not the index**, which goes on waiting. -/
theorem Waits.takeNext (h : Waits i due sub) (hnow : now < due) {skipped : Finset ℕ} {index : ℕ}
    (htake : takeNext now topicLen skipped sub = some (index, sub')) :
    index ≠ i ∧ Waits i due sub' := by
  obtain ⟨hsource, hqueue⟩ := takable_of_takeNext htake
  obtain ⟨-, -, hinflight⟩ := takeNext_frame htake
  have hcursor : sub.nextIndex ≤ sub'.nextIndex := (takeNext_take htake).cursor_le
  refine ⟨?_, h.below.trans_le hcursor, ?_, fun e he => h.later e (hqueue he)⟩
  · rcases hsource with rfl | ⟨e, he, rfl, htime, -⟩
    · exact h.below.ne'
    · exact fun heq => absurd (h.later e he heq) (not_le.mpr (htime.trans_lt hnow))
  · rw [hinflight]
    exact h.unleased

/-- A turn of a pull before the time. -/
theorem Waits.turned (h : Waits i due p.sub) (hnow : env.now 0 < due)
    (hnone : ∀ d ∈ p.deliveries, d.1 ≠ i)
    (hturn : Turned env subscription topicName topicLen p p') :
    Waits i due p'.sub ∧ ∀ d ∈ p'.deliveries, d.1 ≠ i := by
  cases hturn with
  | skip htake _ => exact ⟨(h.takeNext hnow htake).2, hnone⟩
  | block htake _ _ _ _ =>
    obtain ⟨hne, hbelow, hunleased, hlater⟩ := h.takeNext hnow htake
    refine ⟨⟨hbelow, hunleased, fun e he heq => ?_⟩, hnone⟩
    rcases List.mem_append.mp he with he | he
    · exact hlater e he heq
    · rw [List.mem_singleton.mp he] at heq
      exact absurd heq hne
  | serve htake _ _ _ _ _ hserved =>
    obtain ⟨hne, hbelow, hunleased, hlater⟩ := h.takeNext hnow htake
    cases hserved with
    | dead _ => exact ⟨⟨hbelow, hunleased, hlater⟩, hnone⟩
    | filtered _ => exact ⟨⟨hbelow, hunleased, hlater⟩, hnone⟩
    | delivered _ =>
      refine ⟨⟨hbelow, fun ackId entry hentry => ?_, hlater⟩, fun d hd => ?_⟩
      · simp only [deliver, SubscriptionState.lease] at hentry
        rw [Std.ExtTreeMap.getElem?_insert] at hentry
        split_ifs at hentry
        · obtain rfl := Option.some.inj hentry
          exact hne
        · exact hunleased ackId entry hentry
      · rcases List.mem_append.mp hd with hd | hd
        · exact hnone d hd
        · rw [List.mem_singleton.mp hd]
          exact hne

theorem Waits.turns (h : Waits i due p.sub) (hnow : env.now 0 < due)
    (hnone : ∀ d ∈ p.deliveries, d.1 ≠ i)
    (hturns : Relation.ReflTransGen (Turned env subscription topicName topicLen) p p') :
    Waits i due p'.sub ∧ ∀ d ∈ p'.deliveries, d.1 ≠ i := by
  induction hturns with
  | refl => exact ⟨h, hnone⟩
  | tail _ hturn ih => exact ih.1.turned hnow ih.2 hturn

/-- The sweep puts other indices into the queue. -/
theorem Waits.sweep (h : Waits i due sub) : Waits i due (sweep env sub) where
  below := by
    rw [(sweep_frame env sub).2.1]
    exact h.below
  unleased ackId entry hentry := h.unleased ackId entry (getElem?_of_sweep.mp hentry).1
  later e he heq := by
    rcases mem_sweep_retryQueue he with hold | ⟨x, hx, rfl⟩
    · exact h.later e hold heq
    · obtain ⟨entry, hentry, -, hindex⟩ := mem_expiredLeases.mp hx
      exact absurd (hindex.trans heq) (h.unleased x.1 entry hentry)

/-- **A pull before the time**, once expired leases have been swept. -/
theorem Waits.pullFrom {maxMessages : UInt32} {topics : StrMap TopicState}
    (h : Waits i due (Memory.sweep env sub)) (hnow : env.now 0 < due)
    (hp : pullFrom env subscription maxMessages sub topics topicLen = .finished p) :
    Waits i due p.sub ∧ ∀ d ∈ p.deliveries, d.1 ≠ i := by
  refine Waits.turns ?_ hnow ?_ (turns_of_finished hp)
  · exact h
  · exact fun d hd => absurd hd List.not_mem_nil

theorem acknowledgeEach_retryQueue (now : Time) (topic : Option TopicState)
    (sub : SubscriptionState) (ackIds : List Text) :
    (acknowledgeEach now topic sub ackIds).2.retryQueue = sub.retryQueue := by
  induction ackIds generalizing sub with
  | nil => rfl
  | cons ackId ackIds ih =>
    unfold acknowledgeEach
    split
    · exact ih sub
    · dsimp only
      split
      · rfl
      · exact ih _

/-- One ack id whose lease is on another index is given back or extended. -/
theorem Waits.modifyOne (h : Waits i due sub) (extension : UInt32) (ackId : Text) :
    Waits i due (modifyOne now extension sub ackId) := by
  obtain ⟨-, hnext, -, hinflight⟩ := modify_frame now extension sub [ackId]
  refine ⟨?_, fun id entry hentry => ?_, ?_⟩
  · have hbelow := h.below
    rw [← hnext] at hbelow
    exact hbelow
  · obtain ⟨entry', hentry', hindex⟩ := hinflight id entry hentry
    exact hindex ▸ h.unleased id entry' hentry'
  · unfold Memory.modifyOne
    split
    · exact h.later
    · rename_i entry hentry
      split_ifs
      · intro e he heq
        rcases List.mem_cons.mp he with rfl | he
        · exact absurd heq (h.unleased ackId entry hentry)
        · exact h.later e he heq
      · exact h.later

theorem Waits.modify (h : Waits i due sub) (extension : UInt32) (ackIds : List Text) :
    Waits i due (ackIds.foldl (Memory.modifyOne now extension) sub) := by
  induction ackIds generalizing sub with
  | nil => exact h
  | cons ackId ackIds ih => exact ih (h.modifyOne extension ackId)

/-! ### The end of a lease -/

/-- What is on lease is in no other place. -/
theorem waits_of_lease (hx : Exclusive sub.ledger) {ackId : Text} {entry : Inflight}
    (hentry : sub.inflight[ackId]? = some entry) (due : Time) :
    Waits entry.topicIndex due (sub.release ackId) := by
  have hlease : sub.ledger.lease ackId = some entry.topicIndex :=
    (sub.ledger_lease_eq_some _).mpr ⟨entry, hentry, rfl⟩
  refine ⟨hx.lease_lt hlease, fun id entry' hentry' heq => ?_, fun e he heq => ?_⟩
  · have hid : id ≠ ackId := by
      rintro rfl
      simp [SubscriptionState.release] at hentry'
    rw [SubscriptionState.release, getElem?_erase_of_ne hid.symm] at hentry'
    exact hid (hx.lease_inj ((sub.ledger_lease_eq_some _).mpr ⟨entry', hentry', heq⟩) hlease)
  · exact absurd ((sub.mem_ledger_waiting _).mpr ⟨e, he, heq⟩) (hx.lease_waiting hlease)

/-- **A negative acknowledgement** makes the index wait for its delay. -/
theorem waits_of_nack (hx : Exclusive sub.ledger) {ackId : Text} {entry : Inflight}
    (hentry : sub.inflight[ackId]? = some entry) {ackIds : List Text} (hmem : ackId ∈ ackIds) :
    Waits entry.topicIndex (sub.retryAt entry.topicIndex now)
      (ackIds.foldl (Memory.modifyOne now 0) sub) := by
  induction ackIds generalizing sub with
  | nil => cases hmem
  | cons id ackIds ih =>
    rw [List.foldl_cons]
    rcases eq_or_ne id ackId with rfl | hne
    · obtain ⟨hbelow, hunleased, hlater⟩ :=
        waits_of_lease hx hentry (sub.retryAt entry.topicIndex now)
      have hone : Memory.modifyOne now 0 sub id =
          (sub.release id).requeueFront entry.topicIndex (sub.retryAt entry.topicIndex now) := by
        simp [Memory.modifyOne, hentry]
      have hwaits : Waits entry.topicIndex (sub.retryAt entry.topicIndex now)
          (Memory.modifyOne now 0 sub id) := by
        rw [hone]
        refine ⟨hbelow, hunleased, fun e he heq => ?_⟩
        rcases List.mem_cons.mp he with rfl | he
        · exact le_rfl
        · exact hlater e he heq
      exact hwaits.modify 0 ackIds
    · -- another lease is given back first
      obtain ⟨es, htrace⟩ := modify_trace now 0 sub [id]
      obtain ⟨hspec, -, hattempts, -⟩ := modify_frame now 0 sub [id]
      have hentry' : (Memory.modifyOne now 0 sub id).inflight[ackId]? = some entry := by
        unfold Memory.modifyOne
        split
        · exact hentry
        · show (sub.inflight.erase id)[ackId]? = some entry
          rw [getElem?_erase_of_ne hne, hentry]
      have hretry : (Memory.modifyOne now 0 sub id).retryAt = sub.retryAt := by
        have hspec' : (Memory.modifyOne now 0 sub id).spec = sub.spec := hspec
        have hattempts' : (Memory.modifyOne now 0 sub id).attempts = sub.attempts := hattempts
        funext j time
        rw [SubscriptionState.retryAt, SubscriptionState.retryAt, hspec', hattempts']
      rw [← hretry]
      exact ih (htrace.exclusive hx) hentry' ((List.mem_cons.mp hmem).resolve_left hne.symm)

/-- **The sweep of an expired lease** makes the index wait for its delay. -/
theorem waits_of_sweep (hx : Exclusive sub.ledger) {ackId : Text} {entry : Inflight}
    (hentry : sub.inflight[ackId]? = some entry) (hdead : entry.deadline ≤ env.now 0) :
    Waits entry.topicIndex (sub.retryAt entry.topicIndex (env.now 0)) (Memory.sweep env sub) := by
  obtain ⟨hbelow, hunleased, hlater⟩ :=
    waits_of_lease hx hentry (sub.retryAt entry.topicIndex (env.now 0))
  refine ⟨?_, fun id entry' hentry' => ?_, fun e he heq => ?_⟩
  · rw [(sweep_frame env sub).2.1]
    exact hbelow
  · obtain ⟨hold, hlive⟩ := getElem?_of_sweep.mp hentry'
    refine hunleased id entry' ?_
    rw [SubscriptionState.release, getElem?_erase_of_ne, hold]
    rintro rfl
    obtain rfl := Option.some.inj (hentry.symm.trans hold)
    exact absurd hlive (not_lt.mpr hdead)
  · rcases mem_sweep_retryQueue he with hold | ⟨x, -, rfl⟩
    · exact hlater e hold heq
    · exact (congrArg (sub.retryAt · (env.now 0)) heq).ge

end Waiting

/-! ### Steps -/

/-- **The step gives the message back**: its lease ends by a negative acknowledgement, or
is swept by a pull after it has run out. -/
inductive GivesBack (name : Text) (sub : SubscriptionState) (i : ℕ) (s : Step) : Prop
  | nacked {ackIds : List Text} {ackId : Text} {entry : Inflight} :
      s.call = .modifyAckDeadline name ackIds 0 → ackId ∈ ackIds →
      sub.inflight[ackId]? = some entry → entry.topicIndex = i → GivesBack name sub i s
  | swept {maxMessages : UInt32} {ackId : Text} {entry : Inflight} :
      s.call = .pull name maxMessages → sub.inflight[ackId]? = some entry →
      entry.topicIndex = i → entry.deadline ≤ s.env.now 0 → GivesBack name sub i s

/-- The step is no seek on the subscription. -/
def Unsought (name : Text) (st : State) (s : Step) : Prop := seekTarget name st s = none

/-- **The step delivers the message** that the topic has at an index, on the
subscription. -/
def Delivers (name topicName : Text) (i : ℕ) (st : State) (s : Step) : Prop :=
  ∃ sub, st.subscriptions[name]? = some sub ∧ sub.spec.topic = topicName ∧
    ∃ d ∈ deliveredIn name st s, d.1 = i

/-- The step does not deliver the index on the subscription. -/
def Undelivered (name : Text) (i : ℕ) (st : State) (s : Step) : Prop :=
  ∀ d ∈ deliveredIn name st s, d.1 ≠ i

/-- **Where the message is** while it waits: in the log of its topic, and given back by the
subscription, if that is there and on the topic. -/
structure WaitsAt (name topicName : Text) (i : ℕ) (due : Time) (st : State) : Prop where
  inLog : ∃ topic, st.topics[topicName]? = some topic ∧ i + 1 ≤ topic.messages.length
  waits : ∀ sub, st.subscriptions[name]? = some sub → sub.spec.topic = topicName → Waits i due sub

/-- **The counter of a leased index** is the number of its last delivery. -/
def CountedAs (name topicName : Text) (i : ℕ) (attempt : UInt32) (st : State) : Prop :=
  ∀ sub, st.subscriptions[name]? = some sub → sub.ledger.Held i →
    sub.attempts[i]? = some attempt ∧ sub.spec.topic = topicName

section Steps

variable {serde : SerdeJson} {name topicName : Text} {i : ℕ} {due : Time} {attempt : UInt32}
  {st : State} {past : List Step} {s : Step}

/-- **A step before the time leaves the message waiting.** -/
theorem WaitsAt.step (h : WaitsAt name topicName i due st) (hnow : s.env.now 0 < due)
    (hseek : Unsought name st s) (hkeep : s.call ≠ .deleteTopic topicName) :
    WaitsAt name topicName i due (exec serde st s) := by
  refine ⟨within_of_exec hkeep h.inLog, fun sub' hsub' htopic => ?_⟩
  have htouch := touch_of_exec serde name st s
  rw [hsub'] at htouch
  generalize hbefore : st.subscriptions[name]? = before at htouch
  cases htouch with
  | same _ _ _ => exact h.waits sub' hbefore htopic
  | @create arg spec topic _ _ hspec hlog =>
    obtain ⟨topic', htopic', hlt⟩ := h.inLog
    have hsame : topic = topic' := by
      have hname : arg.topic = topicName := hspec.symm.trans htopic
      rw [hname, htopic'] at hlog
      exact (Option.some.inj hlog).symm
    refine ⟨?_, fun ackId entry hentry => ?_, fun e he => absurd he List.not_mem_nil⟩
    · rw [hsame]
      exact hlt
    · simp [SubscriptionState.created] at hentry
  | @respec sub spec _ _ hspec =>
    obtain ⟨hbelow, hunleased, hlater⟩ := h.waits sub hbefore (hspec ▸ htopic)
    exact ⟨hbelow, hunleased, hlater⟩
  | @pull sub topic maxMessages p hcall hlog hp _ _ =>
    have hspec : p.sub.spec = sub.spec :=
      (spec_of_turns (turns_of_finished hp)).trans (sweep_frame s.env sub).1
    exact (Waits.pullFrom (h.waits sub hbefore (hspec ▸ htopic)).sweep hnow hp).1
  | @acknowledge sub ackIds _ _ _ =>
    obtain ⟨hspec, hnext, -, hinflight⟩ :=
      acknowledgeEach_frame (s.env.now 0) st.topics[sub.spec.topic]? sub ackIds
    obtain ⟨hbelow, hunleased, hlater⟩ := h.waits sub hbefore (hspec ▸ htopic)
    refine ⟨hnext ▸ hbelow, fun ackId entry hentry => ?_, ?_⟩
    · exact hunleased ackId entry (hinflight ackId entry hentry)
    · rw [acknowledgeEach_retryQueue]
      exact hlater
  | @modify sub ackIds extension _ _ _ =>
    have hspec := (modify_frame (s.env.now 0) extension sub ackIds).1
    exact (h.waits sub hbefore (hspec ▸ htopic)).modify extension ackIds
  | rewind hr _ =>
    rw [Unsought] at hseek
    rw [hseek] at hr
    cases hr

/-- **A pull before the time does not deliver the message.** -/
theorem WaitsAt.not_delivers (h : WaitsAt name topicName i due st) (hnow : s.env.now 0 < due) :
    ¬Delivers name topicName i st s := by
  rintro ⟨sub, hsub, htopic, d, hd, heq⟩
  obtain ⟨maxMessages, sub₁, topic, p, -, hsub₁, -, hp, hdelivered⟩ := deliveredIn_cases hd
  obtain rfl := Option.some.inj (hsub.symm.trans hsub₁)
  rw [hdelivered] at hd
  exact (Waits.pullFrom (h.waits sub hsub htopic).sweep hnow hp).2 d hd heq

/-- **The delivery of a message sets its counter.** -/
theorem countedAs_of_delivered (hfresh : (past ++ [s]).Pairwise Step.Apart) {d : ℕ × Delivery}
    (hd : d ∈ deliveredIn name (stateAfter serde past) s) : ∃ topicName,
      CountedAs name topicName d.1 d.2.deliveryAttempt (stateAfter serde (past ++ [s])) ∧
      ∃ topic, (stateAfter serde (past ++ [s])).topics[topicName]? = some topic ∧
        d.1 + 1 ≤ topic.messages.length := by
  obtain ⟨maxMessages, sub, topic, p, hcall, hsub, htopic, hp, -⟩ := deliveredIn_cases hd
  obtain ⟨f, hsub', -, hf, hvisited⟩ := visited_of_finished hfresh hsub htopic hcall hp
  rw [← hf] at hd
  obtain ⟨⟨topic', htopic', hmessage⟩, -, -, hattempt⟩ := hvisited.delivered d hd
  rw [stateAfter_concat]
  refine ⟨sub.spec.topic, fun sub₁ hsub₁ _ => ?_, topic', htopic', ?_⟩
  · obtain rfl := Option.some.inj (hsub'.symm.trans hsub₁)
    have hserved : d.1 ∈ f.indices := List.mem_append_right _ (List.mem_map_of_mem hd)
    rw [hvisited.attempts, if_pos hserved, hvisited.spec, hattempt]
    exact ⟨rfl, rfl⟩
  · exact (List.getElem?_eq_some_iff.mp hmessage).1

/-- **The counter stays while the message is not delivered again.** -/
theorem CountedAs.step (hfresh : (past ++ [s]).Pairwise Step.Apart)
    (h : CountedAs name topicName i attempt (stateAfter serde past))
    (hseek : Unsought name (stateAfter serde past) s)
    (hnone : Undelivered name i (stateAfter serde past) s) :
    CountedAs name topicName i attempt (stateAfter serde (past ++ [s])) := by
  intro sub' hsub' hheld
  have hsound' := sound_stateAfter hfresh hsub'
  rw [stateAfter_concat] at hsub'
  have htouch := touch_of_exec serde name (stateAfter serde past) s
  rw [hsub'] at htouch
  rcases hsub : (stateAfter serde past).subscriptions[name]? with - | sub
  · rw [hsub] at htouch
    cases htouch with
    | create _ _ _ _ =>
      rw [SubscriptionState.ledger_created] at hheld
      obtain ⟨k, hk⟩ := hheld
      cases hk
  rw [hsub] at htouch
  have hsound := sound_stateAfter (List.pairwise_append.mp hfresh).1 hsub
  obtain ⟨es, htrace, hgrants, -, htopic⟩ := @step_trace _ _ _ _ _ _ _ False [] hsub hsub' hseek
    hsound.exclusive hsound.named (undrawn_of_apart hfresh) False.elim False.elim
  have hbefore : sub.ledger.Held i := by
    obtain ⟨k, hk⟩ := hheld
    refine ⟨k, (htrace.lease_of (fun _ _ h => h.rewind) hk).resolve_right fun hgranted => ?_⟩
    rw [hgrants, granted_eq_map_deliveredIn] at hgranted
    obtain ⟨d, hd, heq⟩ := List.mem_map.mp hgranted
    exact hnone d hd (Prod.mk.inj heq).2
  obtain ⟨hattempt, hname⟩ := h sub hsub hbefore
  refine ⟨?_, htopic.trans hname⟩
  cases htouch with
  | same _ _ _ => exact hattempt
  | respec _ _ _ => exact hattempt
  | acknowledge _ _ _ =>
    rw [(acknowledgeEach_frame _ _ _ _).2.2.1]
    exact hattempt
  | modify _ _ _ =>
    rw [(modify_frame _ _ _ _).2.2.1]
    exact hattempt
  | rewind hr _ =>
    rw [Unsought] at hseek
    rw [hseek] at hr
    cases hr
  | @pull _ topic maxMessages p hcall hlog hp _ _ =>
    obtain ⟨f, -, -, hf, hvisited⟩ := visited_of_finished hfresh hsub hlog hcall hp
    rw [hvisited.attempts, if_neg, hattempt]
    intro hserved
    rcases List.mem_append.mp hserved with hsettled | hmem
    · -- what is acked is not leased
      exact hsound'.exclusive.not_done_of_held hheld ((hvisited.acked i).mpr (Or.inr hsettled))
    · obtain ⟨d, hd, heq⟩ := List.mem_map.mp hmem
      exact hnone d (hf ▸ hd) heq

/-- **Giving a message back makes it wait** for the delay of its last delivery. -/
theorem waits_of_givesBack {sub : SubscriptionState} (hx : Exclusive sub.ledger)
    (hback : GivesBack name sub i s)
    (hattempt : sub.attempts[i]? = some attempt) :
    (∃ (ackIds : List Text), s.call = .modifyAckDeadline name ackIds 0 ∧
      Waits i (s.env.now 0 + seconds (backoffSeconds sub.spec attempt))
        (ackIds.foldl (modifyOne (s.env.now 0) 0) sub)) ∨
      ∃ (maxMessages : UInt32), s.call = .pull name maxMessages ∧
        Waits i (s.env.now 0 + seconds (backoffSeconds sub.spec attempt)) (sweep s.env sub) := by
  have hretry : sub.retryAt i (s.env.now 0) =
      s.env.now 0 + seconds (backoffSeconds sub.spec attempt) := by
    rw [SubscriptionState.retryAt, hattempt, Option.getD_some]
  rw [← hretry]
  cases hback with
  | nacked hcall hmem hentry hindex =>
    subst hindex
    exact Or.inl ⟨_, hcall, waits_of_nack hx hentry hmem⟩
  | swept hcall hentry hindex hdead =>
    subst hindex
    exact Or.inr ⟨_, hcall, waits_of_sweep hx hentry hdead⟩

/-- **After the step that gives a message back**, before the delay is over. -/
theorem waitsAt_of_givesBack {sub : SubscriptionState} (hx : Exclusive sub.ledger)
    (hsub : st.subscriptions[name]? = some sub) (hback : GivesBack name sub i s)
    (hattempt : sub.attempts[i]? = some attempt)
    (hlog : ∃ topic, st.topics[sub.spec.topic]? = some topic ∧ i + 1 ≤ topic.messages.length)
    (hpos : s.env.now 0 < s.env.now 0 + seconds (backoffSeconds sub.spec attempt)) :
    WaitsAt name sub.spec.topic i (s.env.now 0 + seconds (backoffSeconds sub.spec attempt))
      (exec serde st s) := by
  obtain ⟨topic, htopic, hlt⟩ := id hlog
  rcases waits_of_givesBack hx hback hattempt with
    ⟨ackIds, hcall, hwaits⟩ | ⟨maxMessages, hcall, hwaits⟩
  · refine ⟨within_of_exec (by simp [hcall]) hlog, fun sub' hsub' _ => ?_⟩
    have hafter : (exec serde st s).subscriptions[name]? =
        some (ackIds.foldl (modifyOne (s.env.now 0) 0) sub) := by
      simp [exec, hcall, modifyAckDeadline, hsub]
    obtain rfl := Option.some.inj (hafter.symm.trans hsub')
    exact hwaits
  · refine ⟨within_of_exec (by simp [hcall]) hlog, fun sub' hsub' _ => ?_⟩
    rcases hp : pullFrom s.env name maxMessages sub st.topics topic.messages.length with p | p
    · have hafter : (exec serde st s).subscriptions[name]? = some p.sub := by
        simp [exec, hcall, pull, hsub, htopic, hp]
      obtain rfl := Option.some.inj (hafter.symm.trans hsub')
      exact (Waits.pullFrom hwaits hpos hp).1
    · have hafter : (exec serde st s).subscriptions[name]? = none := by
        simp [exec, hcall, pull, hsub, htopic, hp]
      rw [hafter] at hsub'
      cases hsub'

/-- The pull that sweeps the lease does not deliver the message, if there is a delay. -/
theorem undelivered_of_givesBack {sub : SubscriptionState} (hx : Exclusive sub.ledger)
    (hsub : st.subscriptions[name]? = some sub) (hback : GivesBack name sub i s)
    (hattempt : sub.attempts[i]? = some attempt)
    (hpos : s.env.now 0 < s.env.now 0 + seconds (backoffSeconds sub.spec attempt)) :
    Undelivered name i st s := by
  intro d hd
  obtain ⟨maxMessages, sub₁, topic, p, hcall, hsub₁, -, hp, hdelivered⟩ := deliveredIn_cases hd
  obtain rfl := Option.some.inj (hsub.symm.trans hsub₁)
  rw [hdelivered] at hd
  rcases waits_of_givesBack hx hback hattempt with ⟨ackIds, hnack, -⟩ | ⟨_, -, hwaits⟩
  · rw [hcall] at hnack
    cases hnack
  · exact (Waits.pullFrom hwaits hpos hp).2 d hd

variable (serde) in
/-- **Retry backoff is honoured.** The delay follows `RelayPubsub.Memory.BackoffLaw`. And in
every run whose clock does not go back: when a message was last delivered by `s₀`, and `s`
gives it back, then no pull delivers it before the delay of that delivery, with the policy
that is stored at `s`, is over, whatever happens in between, seeks on the subscription
excepted, and as long as the message is there, that is its topic not deleted. -/
theorem backoff_honoured :
    (∀ spec, BackoffLaw spec) ∧
    ∀ (r : Run) (name : Text) (init mid : List Step) (s₀ s : Step) (d : ℕ × Delivery)
      (sub : SubscriptionState), ClockMonotone r.steps →
      init ++ [s₀] ++ mid ++ [s] <+: r.steps → d ∈ deliveredIn name (stateAfter serde init) s₀ →
      Machine.Guarded (exec serde) (fun st u => Unsought name st u ∧ Undelivered name d.1 st u)
        (stateAfter serde (init ++ [s₀])) mid →
      (stateAfter serde (init ++ [s₀] ++ mid)).subscriptions[name]? = some sub →
      GivesBack name sub d.1 s →
      (backoffSeconds sub.spec d.2.deliveryAttempt ≠ 0 →
        Undelivered name d.1 (stateAfter serde (init ++ [s₀] ++ mid)) s) ∧
      ∀ (seg : List Step) (t : Step), init ++ [s₀] ++ mid ++ [s] ++ seg ++ [t] <+: r.steps →
        Machine.Guarded (exec serde) (Unsought name)
          (stateAfter serde (init ++ [s₀] ++ mid ++ [s])) seg →
        (∀ u ∈ mid ++ [s] ++ seg, u.call ≠ .deleteTopic sub.spec.topic) →
        t.env.now 0 < s.env.now 0 + seconds (backoffSeconds sub.spec d.2.deliveryAttempt) →
        ¬Delivers name sub.spec.topic d.1
          (stateAfter serde (init ++ [s₀] ++ mid ++ [s] ++ seg)) t := by
  refine ⟨backoffLaw, ?_⟩
  intro r name init mid s₀ s d sub hclock hrun hd hmid hsub hback
  have hfresh : ∀ {steps : List Step}, steps <+: r.steps → steps.Pairwise Step.Apart :=
    fun h => r.fresh.sublist h.sublist
  have hinit : init ++ [s₀] ++ mid <+: r.steps := (List.prefix_append _ _).trans hrun
  obtain ⟨topicName, hcounted₀, hlog₀⟩ := countedAs_of_delivered
    (hfresh ((List.prefix_append (init ++ [s₀]) mid).trans hinit)) hd
  generalize init ++ [s₀] = past at *
  -- the counter of the message is the number of that delivery until it is given back
  have hcounted : CountedAs name topicName d.1 d.2.deliveryAttempt
      (stateAfter serde (past ++ mid)) := by
    rw [stateAfter_append]
    refine @Machine.invariant _ _ (exec serde)
      (fun _ st => CountedAs name topicName d.1 d.2.deliveryAttempt st) _ mid hcounted₀
      (fun pre u hpre h => ?_) mid (List.prefix_refl _)
    obtain ⟨hseek, hnone⟩ := hmid pre u hpre
    rw [← stateAfter_append] at h hseek hnone ⊢
    rw [← stateAfter_concat]
    refine h.step (hfresh ?_) hseek hnone
    rw [List.append_assoc]
    exact ((List.prefix_append_right_inj past).mpr hpre).trans hinit
  have hsound := sound_stateAfter (hfresh hinit) hsub
  have hheld : sub.ledger.Held d.1 := by
    cases hback with
    | nacked _ _ hentry hindex => exact ⟨_, (sub.ledger_lease_eq_some _).mpr ⟨_, hentry, hindex⟩⟩
    | swept _ hentry hindex _ => exact ⟨_, (sub.ledger_lease_eq_some _).mpr ⟨_, hentry, hindex⟩⟩
  obtain ⟨hattempt, rfl⟩ := hcounted sub hsub hheld
  refine ⟨fun hne => undelivered_of_givesBack hsound.exclusive hsub hback hattempt ?_, ?_⟩
  · have hdelay : 0 < (backoffSeconds sub.spec d.2.deliveryAttempt).toNat :=
      Nat.pos_of_ne_zero fun h => hne (UInt32.toNat_inj.mp h)
    exact lt_add_of_pos_right _ (Int.mul_pos (Int.natCast_pos.mpr hdelay) (by decide))
  intro seg t hrun' hseek hkeep hearly
  -- every step up to `t` is before the delay is over
  have hbefore : ∀ u ∈ [s] ++ seg, u.env.now 0 ≤ t.env.now 0 := by
    intro u hu
    have hpairs := (hclock.of_isPrefix hrun').across
    rw [List.append_assoc (past ++ mid), List.pairwise_append] at hpairs
    exact hpairs.2.2 u (List.mem_append_right _ hu) t (by simp) 0 0
  have hlog : ∃ topic, (stateAfter serde (past ++ mid)).topics[sub.spec.topic]? = some topic ∧
      d.1 + 1 ≤ topic.messages.length := by
    rw [stateAfter_append]
    refine @Machine.invariant _ _ (exec serde) (fun _ st => ∃ topic,
      st.topics[sub.spec.topic]? = some topic ∧ d.1 + 1 ≤ topic.messages.length) _ mid hlog₀
      (fun pre u hpre h => within_of_exec (hkeep u ?_) h) mid (List.prefix_refl _)
    have hu : u ∈ mid := hpre.subset (by simp)
    simp [hu]
  have hwaits : WaitsAt name sub.spec.topic d.1
      (s.env.now 0 + seconds (backoffSeconds sub.spec d.2.deliveryAttempt))
      (stateAfter serde (past ++ mid ++ [s] ++ seg)) := by
    rw [stateAfter_append]
    refine @Machine.invariant _ _ (exec serde) (fun _ st => WaitsAt name sub.spec.topic d.1
      (s.env.now 0 + seconds (backoffSeconds sub.spec d.2.deliveryAttempt)) st) _ seg ?_
      (fun pre u hpre h => ?_) seg (List.prefix_refl _)
    · rw [stateAfter_concat]
      exact waitsAt_of_givesBack hsound.exclusive hsub hback hattempt hlog
        ((hbefore s (by simp)).trans_lt hearly)
    · have hu : u ∈ seg := hpre.subset (by simp)
      exact h.step ((hbefore u (by simp [hu])).trans_lt hearly) (hseek pre u hpre)
        (hkeep u (by simp [hu]))
  exact hwaits.not_delivers hearly

end Steps

/-! ### A run -/

/-- A message is pulled and given back, and pulled again within the ten seconds of the
default policy. -/
def nackedOnce : Run := .ofCalls
  [(0, .createTopic sampleTopic),
   (0, .createSubscription sampleSubscription),
   (0, .publish sampleTopic.name [sampleMessage ""]),
   (0, .pull sampleSubscription.name 1),
   (0, .modifyAckDeadline sampleSubscription.name [(Uuid.numbered 3 0).text] 0),
   (seconds 5, .pull sampleSubscription.name 1),
   (seconds 9, .pull sampleSubscription.name 1)]

/-- The pull at nine seconds does not deliver it. -/
theorem nackedOnce_waits : ¬Delivers sampleSubscription.name sampleTopic.name 0
    (stateAfter noJson (nackedOnce.steps.take 6)) nackedOnce.steps[6] := by
  have hdelivered : ((deliveredIn sampleSubscription.name
      (stateAfter noJson (nackedOnce.steps.take 3)) nackedOnce.steps[3]).any fun d => decide
        (d.1 = 0 ∧ d.2.deliveryAttempt = 1)) = true := by
    decide +kernel
  obtain ⟨d, hd, heq⟩ := List.any_eq_true.mp hdelivered
  obtain ⟨hindex, hattempt⟩ := of_decide_eq_true heq
  have hleased : ((stateAfter noJson (nackedOnce.steps.take 4)).subscriptions[
      sampleSubscription.name]?.any fun sub => sub.inflight[(Uuid.numbered 3 0).text]?.any
        fun entry => decide (entry.topicIndex = 0 ∧ sub.spec.topic = sampleTopic.name ∧
          backoffSeconds sub.spec 1 = 10)) = true := by
    decide +kernel
  obtain ⟨sub, hsub, hleased⟩ := (Option.any_eq_true _ _).mp hleased
  obtain ⟨entry, hentry, hfacts⟩ := (Option.any_eq_true _ _).mp hleased
  obtain ⟨hentryIndex, htopic, hdelay⟩ := of_decide_eq_true hfacts
  obtain ⟨-, hlater⟩ := (backoff_honoured noJson).2 nackedOnce sampleSubscription.name
    (nackedOnce.steps.take 3) [] nackedOnce.steps[3] nackedOnce.steps[4] d sub
    (clockMonotone_ofCalls (by decide)) (nackedOnce.steps.take_prefix 5) hd Machine.guarded_nil hsub
    (.nacked rfl List.mem_cons_self hentry (hentryIndex.trans hindex.symm))
  have hlast := hlater [nackedOnce.steps[5]] nackedOnce.steps[6] (List.prefix_refl _)
    (Machine.guarded_cons.mpr ⟨rfl, Machine.guarded_nil⟩)
    (by
      intro u hu
      rcases List.mem_cons.mp hu with rfl | hu
      · exact nofun
      · rw [List.mem_singleton.mp hu]
        exact nofun)
    (by
      rw [hattempt, hdelay]
      decide)
  rw [htopic, hindex] at hlast
  exact hlast

end RelayPubsub.Memory
