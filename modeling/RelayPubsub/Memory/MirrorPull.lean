import RelayPubsub.Memory.Mirror

/-!
# Pulling from a filtered subscription and from its mirror image

The two loops of `pull` side by side. They do not go turn by turn: what the filter
rejects costs the filtered side a turn, in which the other side stands still, and
nothing of the limit (`RelayPubsub.Memory.InStep.turn`). Since a turn of either side
leaves fewer indices to take, both loops end by themselves, and end together
(`RelayPubsub.Memory.InStep.loop`).

Each side hands out an ack id of its own for a message. Whether these are
exactly-once ids or random identifiers, the pairs of ack ids handed out for the same
message stay one-to-one: see `RelayPubsub.Memory.Sourced`.
-/

namespace RelayPubsub.Memory

open Lib Lib.Ledger

/-! ### The next index -/

section Take

variable {p : RelayMessage → Bool} {log : List RelayMessage} {pairs : Set (Text × Text)}
  {sub sub' taken : SubscriptionState} {i : ℕ} {now : Time}

/-- A retry is due where its counterpart is. -/
theorem ready_comp_moved : ready now ∅ ∘ RetryEntry.moved p log = ready now ∅ := by
  funext e
  simp [ready, RetryEntry.moved]

/-- Nothing is left on either side. -/
theorem Mirrors.takeNext_eq_none (h : Mirrors p log pairs sub sub')
    (hnone : takeNext now log.length ∅ sub = none) :
    takeNext now (rank p log log.length) ∅ sub' = none := by
  unfold takeNext at hnone ⊢
  rw [h.queue, List.find?_map, ready_comp_moved]
  split at hnone
  · cases hnone
  rename_i hqueue
  rw [hqueue, Option.map_none]
  split_ifs at hnone with hlt
  have hend : sub.nextIndex = log.length := Nat.le_antisymm h.cursor_le (not_lt.mp hlt)
  rw [h.cursor, hend]
  exact if_neg (lt_irrefl _)

/-- **The next index, on both sides**: the filter accepts its message, and the other
side takes the corresponding one, or the filter rejects it, and the other side need not
do anything. -/
theorem Mirrors.takeNext (h : Mirrors p log pairs sub sub')
    (htake : takeNext now log.length ∅ sub = some (i, taken)) :
    (AcceptedAt p log i ∧ ∃ taken',
        takeNext now (rank p log log.length) ∅ sub' = some (rank p log i, taken') ∧
          Mirrors p log pairs taken taken') ∨
      (∃ message, log[i]? = some message ∧ p message = false) ∧
        Mirrors p log pairs taken sub' := by
  unfold Memory.takeNext at htake ⊢
  rw [h.queue, List.find?_map, ready_comp_moved]
  split at htake
  · -- off the retry queue, which holds accepted indices only
    rename_i e he
    obtain ⟨rfl, rfl⟩ := Prod.mk.inj (Option.some.inj htake)
    rw [he, Option.map_some]
    have hsub : ∀ d ∈ sub.retryQueue.eraseP (ready now ∅), d ∈ sub.retryQueue :=
      fun d hd => List.mem_of_mem_eraseP hd
    refine Or.inl ⟨h.queued e (List.mem_of_find?_eq_some he), _, rfl, ?_⟩
    exact
      { h with
        queue := by rw [List.eraseP_map, ready_comp_moved]
        queued := fun d hd => h.queued d (hsub d hd) }
  · rename_i hqueue
    rw [hqueue, Option.map_none]
    split_ifs at htake with hlt
    obtain ⟨rfl, rfl⟩ := Prod.mk.inj (Option.some.inj htake)
    obtain ⟨message, hmessage⟩ : ∃ message, log[sub.nextIndex]? = some message :=
      ⟨_, List.getElem?_eq_getElem hlt⟩
    by_cases hp : p message = true
    · have hi : AcceptedAt p log sub.nextIndex := ⟨message, hmessage, hp⟩
      have hlt' : sub'.nextIndex < rank p log log.length := h.cursor ▸ rank_lt hi hlt
      refine Or.inl ⟨hi, { sub' with nextIndex := sub'.nextIndex + 1 }, ?_, ?_⟩
      · dsimp only
        rw [if_pos hlt', h.cursor, h.queue]
      · exact
          { h with
            cursor := by rw [rank_succ hmessage, if_pos hp, h.cursor]
            cursor_le := hlt }
    · rw [Bool.not_eq_true] at hp
      refine Or.inr ⟨⟨message, hmessage, hp⟩, ?_⟩
      exact
        { h with
          cursor := by rw [rank_succ hmessage, hp, h.cursor]; rfl
          cursor_le := hlt }

end Take

/-! ### One side -/

/-- **One of the two pulls**: the subscription it is on, its topic, and the random
identifiers drawn before it. -/
structure Side where
  env : Env
  subscription : Text
  topicName : Text
  topic : TopicState
  drawn : Set Text
  undrawn : Undrawn env drawn

/-- A turn of the loop. -/
def Side.turn (a : Side) (limit : ℕ) (p : Pulling) : Turn :=
  pullTurn a.env a.subscription a.topicName a.topic.messages.length limit p

/-- **A pull that meets neither an ordering key nor a dead-letter policy.** -/
structure Side.Plain (a : Side) (p : Pulling) : Prop where
  exclusive : Exclusive p.sub.ledger
  named : Named a.subscription (a.drawn ∪ drawnUpTo a.env p.draws) p.sub
  topic : p.topics[a.topicName]? = some a.topic
  unskipped : p.skippedOrdering = ∅
  unordered : p.sub.spec.enableMessageOrdering = false
  undead : p.sub.spec.deadLetter = none

section Side

variable {a : Side} {p p' : Pulling} {limit i : ℕ} {sub : SubscriptionState}
  {message : RelayMessage}

theorem Side.turn_of_limit (h : limit ≤ p.deliveries.length) : a.turn limit p = .stop := if_pos h

theorem Side.Plain.turn_of_none (h : a.Plain p)
    (hnone : takeNext (a.env.now 0) a.topic.messages.length ∅ p.sub = none) :
    a.turn limit p = .stop := by
  unfold Side.turn pullTurn
  rw [h.unskipped, hnone]
  exact ite_self _

/-- An index that can be taken is served. -/
theorem Side.Plain.turn_of_some (h : a.Plain p) (hlimit : p.deliveries.length < limit)
    (htake : takeNext (a.env.now 0) a.topic.messages.length ∅ p.sub = some (i, sub))
    (hmessage : a.topic.messages[i]? = some message) :
    a.turn limit p = .again (serve a.env a.subscription { p with sub } i message) := by
  obtain ⟨hspec, -, -⟩ := takeNext_frame htake
  -- the index is neither acked nor leased, and no key blocks it
  obtain ⟨-, hfree⟩ := h.exclusive.take (takeNext_take htake)
  have hacked : i ∉ sub.acked := hfree.done
  have hleased : ¬sub.isLeased i = true := by
    intro hmem
    exact hfree.held ((sub.isLeased_iff i).mp hmem)
  have hblocked : orderingBlocked sub a.topic i (a.env.now 0) = some false := by
    rw [orderingBlocked, hspec, h.unordered]
    rfl
  unfold Side.turn pullTurn
  rw [if_neg (not_le.mpr hlimit), h.unskipped, htake]
  dsimp only
  rw [if_neg (not_or.mpr ⟨hacked, hleased⟩), h.topic]
  dsimp only
  rw [hblocked, hmessage]

/-- What the filter rejects is acknowledged. -/
theorem serve_of_rejected {env : Env} {subscription : Text} (hdead : p.sub.spec.deadLetter = none)
    (hrejects : filterRejects p.sub.spec message = true) :
    serve env subscription p i message =
      { p with sub := (p.sub.countAttempt i).settle i } := by
  have hspec : (p.sub.countAttempt i).spec = p.sub.spec := rfl
  simp only [serve, deadLetterTopic, hspec, hdead, hrejects, if_true]

/-- What the filter does not reject is delivered. -/
theorem serve_of_accepted {env : Env} {subscription : Text} (hdead : p.sub.spec.deadLetter = none)
    (haccepts : filterRejects p.sub.spec message = false) :
    serve env subscription p i message =
      deliver env subscription (p.countAttempt i) i (p.sub.nextAttempt i) message := by
  have hspec : (p.sub.countAttempt i).spec = p.sub.spec := rfl
  simp only [serve, deadLetterTopic, hspec, hdead, haccepts, Bool.false_eq_true, if_false]
  rfl

/-- A turn that leaves the topics leaves the pull plain. -/
theorem Side.Plain.again (h : a.Plain p) (hturn : a.turn limit p = .again p')
    (htopics : p'.topics = p.topics) (hskipped : p'.skippedOrdering = p.skippedOrdering) :
    a.Plain p' := by
  have hturned := (turned_of_again hturn).2
  obtain ⟨e, he⟩ := @turned_serves _ _ _ _ _ False [] _ _ h.exclusive h.named a.undrawn False.elim
    False.elim hturned
  have hspec := hturned.spec_eq
  exact
    { exclusive := h.exclusive.move he.move
      named := he.named
      topic := by rw [htopics, h.topic]
      unskipped := by rw [hskipped, h.unskipped]
      unordered := by rw [hspec, h.unordered]
      undead := by rw [hspec, h.undead] }

end Side

/-! ### The pairs of ack ids -/

/-- **Where the pairs of ack ids come from**: the exactly-once ids of corresponding
indices with the same attempt, or two random identifiers. -/
structure Sourced (p : RelayMessage → Bool) (log : List RelayMessage) (exactlyOnce : Bool)
    (name name' : Text) (drawn drawn' : Set Text) (pairs : Set (Text × Text)) : Prop where
  once : exactlyOnce = true → ∀ x ∈ pairs, ∃ i k, AcceptedAt p log i ∧
    x = (exactlyOnceId name i k, exactlyOnceId name' (rank p log i) k)
  drawn : exactlyOnce = false → ∀ x ∈ pairs, x.1 ∈ drawn ∧ x.2 ∈ drawn'

section Pairs

variable {p : RelayMessage → Bool} {log log' : List RelayMessage} {exactlyOnce : Bool}
  {name name' : Text} {drawn drawn' drawn₁ drawn₁' : Set Text} {pairs : Set (Text × Text)} {i : ℕ}

theorem Sourced.mono (h : Sourced p log exactlyOnce name name' drawn drawn' pairs)
    (hlog : log <+: log') (hdrawn : drawn ⊆ drawn₁) (hdrawn' : drawn' ⊆ drawn₁') :
    Sourced p log' exactlyOnce name name' drawn₁ drawn₁' pairs where
  once := by
    intro honce x hx
    obtain ⟨i, k, hi, rfl⟩ := h.once honce x hx
    exact ⟨i, k, hi.of_isPrefix hlog, by rw [rank_of_isPrefix hlog hi.lt.le]⟩
  drawn := by
    intro honce x hx
    obtain ⟨hleft, hright⟩ := h.drawn honce x hx
    exact ⟨hdrawn hleft, hdrawn' hright⟩

theorem oneToOne_insert {x : Text × Text} (h : OneToOne pairs)
    (hx : ∀ y ∈ pairs, x.1 = y.1 ↔ x.2 = y.2) : OneToOne (insert x pairs) := by
  rintro y (rfl | hy) z (rfl | hz)
  · exact iff_of_true rfl rfl
  · exact hx z hz
  · rw [eq_comm, hx y hy, eq_comm]
  · exact h y hy z hz

/-- The next random identifier has not been drawn before. -/
theorem Undrawn.notMem {env : Env} (h : Undrawn env drawn) (n : ℕ) :
    (env.uuid n).text ∉ drawn ∪ drawnUpTo env n := by
  rintro (hmem | ⟨k, hk, heq⟩)
  · exact h.apart _ hmem n rfl
  · have hn := env.uuid_inj heq
    omega

variable {a b : Side} {q r : Pulling}

/-- The ack id of the next delivery on one side. -/
def Side.ackId (a : Side) (q : Pulling) (i : ℕ) (attempt : UInt32) : Text :=
  ackIdFor a.env a.subscription q i attempt

/-- The identifiers drawn on one side. -/
def Side.drawnBy (a : Side) (draws : ℕ) : Set Text := a.drawn ∪ drawnUpTo a.env draws

/-- **The ack ids of a delivery are a new pair**, or an old one again. -/
theorem Sourced.handOut (k : UInt32) (m m' : RelayMessage) (hone : OneToOne pairs)
    (h : Sourced p log q.sub.spec.enableExactlyOnceDelivery a.subscription b.subscription
      (a.drawnBy q.draws) (b.drawnBy r.draws) pairs)
    (honce : r.sub.spec.enableExactlyOnceDelivery = q.sub.spec.enableExactlyOnceDelivery)
    (hi : AcceptedAt p log i) :
    OneToOne (insert (a.ackId q i k, b.ackId r (rank p log i) k) pairs) ∧
      Sourced p log q.sub.spec.enableExactlyOnceDelivery a.subscription b.subscription
        (a.drawnBy (deliver a.env a.subscription q i k m).draws)
        (b.drawnBy (deliver b.env b.subscription r (rank p log i) k m').draws)
        (insert (a.ackId q i k, b.ackId r (rank p log i) k) pairs) := by
  rcases hspec : q.sub.spec.enableExactlyOnceDelivery with - | -
  · -- two random identifiers, neither drawn before
    rw [hspec] at h honce
    have hid : a.ackId q i k = (a.env.uuid q.draws).text := by
      simp [Side.ackId, ackIdFor, hspec]
    have hid' : b.ackId r (rank p log i) k = (b.env.uuid r.draws).text := by
      simp [Side.ackId, ackIdFor, honce]
    have hdraws : (deliver a.env a.subscription q i k m).draws = q.draws + 1 := by
      simp [deliver, hspec]
    have hdraws' : (deliver b.env b.subscription r (rank p log i) k m').draws = r.draws + 1 := by
      simp [deliver, honce]
    rw [hid, hid', hdraws, hdraws']
    refine ⟨oneToOne_insert hone fun y hy => ?_, ⟨fun honce => ?_, fun _ x hx => ?_⟩⟩
    · obtain ⟨hleft, hright⟩ := h.drawn rfl y hy
      refine iff_of_false (fun heq => ?_) fun heq => ?_
      · rw [← heq] at hleft
        exact a.undrawn.notMem q.draws hleft
      · rw [← heq] at hright
        exact b.undrawn.notMem r.draws hright
    · cases honce
    · rcases Set.mem_insert_iff.mp hx with rfl | hx
      · exact ⟨Or.inr ⟨q.draws, Nat.lt_succ_self _, rfl⟩, Or.inr ⟨r.draws, Nat.lt_succ_self _, rfl⟩⟩
      · obtain ⟨hleft, hright⟩ := h.drawn rfl x hx
        exact ⟨Set.union_subset_union_right _ (drawnUpTo_mono _ (Nat.le_succ _)) hleft,
          Set.union_subset_union_right _ (drawnUpTo_mono _ (Nat.le_succ _)) hright⟩
  · -- two exactly-once ids, of corresponding indices and the same attempt
    rw [hspec] at h honce
    have hid : a.ackId q i k = exactlyOnceId a.subscription i k := by
      simp [Side.ackId, ackIdFor, hspec]
    have hid' : b.ackId r (rank p log i) k = exactlyOnceId b.subscription (rank p log i) k := by
      simp [Side.ackId, ackIdFor, honce]
    rw [hid, hid']
    refine ⟨oneToOne_insert hone fun y hy => ?_, ⟨fun _ x hx => ?_, fun honce => ?_⟩⟩
    · obtain ⟨j, l, hj, rfl⟩ := h.once rfl y hy
      constructor
      · intro heq
        obtain ⟨rfl, rfl⟩ := exactlyOnceId_injective heq
        rfl
      · intro heq
        obtain ⟨hrank, rfl⟩ := exactlyOnceId_injective heq
        rw [(rank_inj hi hj).mp hrank]
    · rcases Set.mem_insert_iff.mp hx with rfl | hx
      · exact ⟨i, k, hi, rfl⟩
      · exact h.once rfl x hx
    · cases honce

end Pairs

/-! ### Two pulls in step -/

/-- The ack ids handed out by two pulls at the same place. -/
def handedTogether (p q : Pulling) : Set (Text × Text) :=
  {x | x ∈ (p.deliveries.map fun d => d.2.ackId).zip (q.deliveries.map fun d => d.2.ackId)}

/-- The same message with the same delivery attempt. -/
def SameDelivery (same : RelayMessage → RelayMessage → Prop) (d d' : Delivery) : Prop :=
  same d.message d'.message ∧ d.deliveryAttempt = d'.deliveryAttempt

/-- **Two pulls in step**, after the same number of deliveries: `a` from a filtered
subscription, `b` from its mirror image, where `pairs` are the pairs of ack ids from
before. -/
structure InStep (f : AttributeFilter) (same : RelayMessage → RelayMessage → Prop)
    (pairs : Set (Text × Text)) (a b : Side) (p q : Pulling) : Prop where
  left : a.Plain p
  right : b.Plain q
  twins : Twins f p.sub.spec q.sub.spec
  mirrors : Mirrors f.accepts a.topic.messages (pairs ∪ handedTogether p q) p.sub q.sub
  oneToOne : OneToOne (pairs ∪ handedTogether p q)
  sourced : Sourced f.accepts a.topic.messages p.sub.spec.enableExactlyOnceDelivery
    a.subscription b.subscription (a.drawnBy p.draws) (b.drawnBy q.draws)
    (pairs ∪ handedTogether p q)
  deliveries : List.Forall₂ (SameDelivery same) (p.deliveries.map Prod.snd)
    (q.deliveries.map Prod.snd)

section InStep

variable {f : AttributeFilter} {same : RelayMessage → RelayMessage → Prop}
  {pairs : Set (Text × Text)} {a b : Side} {p q : Pulling} {limit : ℕ}

theorem InStep.length_eq (h : InStep f same pairs a b p q) :
    p.deliveries.length = q.deliveries.length := by
  have hlength := h.deliveries.length_eq
  rwa [List.length_map, List.length_map] at hlength

/-- One delivery more on both sides. -/
theorem handedTogether_concat {p' q' : Pulling} {d d' : ℕ × Delivery}
    (hlength : p.deliveries.length = q.deliveries.length)
    (hp : p'.deliveries = p.deliveries ++ [d]) (hq : q'.deliveries = q.deliveries ++ [d']) :
    handedTogether p' q' = insert (d.2.ackId, d'.2.ackId) (handedTogether p q) := by
  have hlength' : (p.deliveries.map fun d => d.2.ackId).length =
      (q.deliveries.map fun d => d.2.ackId).length := by
    rw [List.length_map, List.length_map, hlength]
  ext x
  simp only [handedTogether, hp, hq, List.map_append, List.map_cons, List.map_nil,
    List.zip_append hlength', List.zip_cons_cons, List.zip_nil_right, List.mem_append,
    List.mem_singleton, Set.mem_ofPred_eq, Set.mem_insert_iff]
  exact or_comm

/-- The pull after the message at an index in hand has been delivered. -/
def Side.deliver (a : Side) (p : Pulling) (taken : SubscriptionState) (i : ℕ)
    (message : RelayMessage) : Pulling :=
  Memory.deliver a.env a.subscription (({ p with sub := taken } : Pulling).countAttempt i) i
    (taken.nextAttempt i) message

/-- **Both sides deliver**: the message at `i`, and the one at its rank. -/
theorem InStep.delivered {i j : ℕ} {taken taken' : SubscriptionState}
    {message message' : RelayMessage} (h : InStep f same pairs a b p q)
    (hnow : a.env.now 0 = b.env.now 0) (hi : AcceptedAt f.accepts a.topic.messages i)
    (hj : j = rank f.accepts a.topic.messages i)
    (hmirrors : Mirrors f.accepts a.topic.messages (pairs ∪ handedTogether p q) taken taken')
    (htwins : Twins f taken.spec taken'.spec) (hspec : taken.spec = p.sub.spec)
    (hsame : same message message') (hleft : a.Plain (a.deliver p taken i message))
    (hright : b.Plain (b.deliver q taken' j message')) :
    InStep f same pairs a b (a.deliver p taken i message) (b.deliver q taken' j message') := by
  subst hj
  -- the two pulls with the indices in hand and the attempts counted
  let p₀ : Pulling := ({ p with sub := taken } : Pulling).countAttempt i
  let q₀ : Pulling := ({ q with sub := taken' } : Pulling).countAttempt
    (rank f.accepts a.topic.messages i)
  have hattempt := hmirrors.nextAttempt hi
  have hsourced : Sourced f.accepts a.topic.messages p₀.sub.spec.enableExactlyOnceDelivery
      a.subscription b.subscription (a.drawnBy p₀.draws) (b.drawnBy q₀.draws)
      (pairs ∪ handedTogether p q) := by
    have hspec₀ : p₀.sub.spec = p.sub.spec := hspec
    rw [hspec₀]
    exact h.sourced
  obtain ⟨hone, hsourced'⟩ :=
    Sourced.handOut (taken.nextAttempt i) message message' h.oneToOne hsourced htwins.once hi
  unfold Side.deliver at hleft hright ⊢
  rw [hattempt] at hright ⊢
  have hpairs : pairs ∪ handedTogether
      (Memory.deliver a.env a.subscription p₀ i (taken.nextAttempt i) message)
      (Memory.deliver b.env b.subscription q₀ (rank f.accepts a.topic.messages i)
        (taken.nextAttempt i) message') =
      insert (a.ackId p₀ i (taken.nextAttempt i),
        b.ackId q₀ (rank f.accepts a.topic.messages i) (taken.nextAttempt i))
        (pairs ∪ handedTogether p q) := by
    rw [handedTogether_concat h.length_eq rfl rfl, Set.union_insert]
    rfl
  -- the lease on the right is the one on the left, moved
  have hlease : (Memory.deliver b.env b.subscription q₀ (rank f.accepts a.topic.messages i)
      (taken.nextAttempt i) message').sub =
      q₀.sub.lease (b.ackId q₀ (rank f.accepts a.topic.messages i) (taken.nextAttempt i))
        (Inflight.moved f.accepts a.topic.messages ⟨i, a.env.now 0 +
          seconds (normalizeAckDeadline p₀.sub.spec.ackDeadlineSeconds)⟩) := by
    have hseconds : q₀.sub.spec.ackDeadlineSeconds = p₀.sub.spec.ackDeadlineSeconds :=
      htwins.ackDeadlineSeconds
    rw [Inflight.moved, hnow, ← hseconds]
    rfl
  refine
    { left := hleft
      right := hright
      twins := htwins
      mirrors := ?_
      oneToOne := hpairs ▸ hone
      sourced := hpairs ▸ hsourced'
      deliveries := ?_ }
  · rw [hpairs, hlease]
    exact (hmirrors.countAttempt hi).lease hone hi
  · simp only [Memory.deliver, List.map_append, List.map_cons, List.map_nil]
    exact List.rel_append h.deliveries (.cons ⟨hsame, rfl⟩ .nil)

/-- **One turn of the filtered side**: both loops end here, or the filter rejects a
message and the other side stands still, or both deliver. -/
theorem InStep.turn (h : InStep f same pairs a b p q)
    (hlog : List.Forall₂ same (a.topic.messages.filter f.accepts) b.topic.messages)
    (hnow : a.env.now 0 = b.env.now 0) :
    (a.turn limit p = .stop ∧ b.turn limit q = .stop) ∨
      (∃ p', a.turn limit p = .again p' ∧ InStep f same pairs a b p' q) ∨
      ∃ p' q', a.turn limit p = .again p' ∧ b.turn limit q = .again q' ∧
        InStep f same pairs a b p' q' := by
  have hlen := length_of_matching hlog
  rcases Nat.lt_or_ge p.deliveries.length limit with hlimit | hlimit
  swap
  · exact Or.inl ⟨Side.turn_of_limit hlimit, Side.turn_of_limit (h.length_eq ▸ hlimit)⟩
  rcases htake : takeNext (a.env.now 0) a.topic.messages.length ∅ p.sub with - | ⟨i, taken⟩
  · refine Or.inl ⟨h.left.turn_of_none htake, h.right.turn_of_none ?_⟩
    rw [hlen, ← hnow]
    exact h.mirrors.takeNext_eq_none htake
  obtain ⟨hspec, -, -⟩ := takeNext_frame htake
  rcases h.mirrors.takeNext htake with ⟨hi, taken', htake', hmirrors⟩ |
    ⟨⟨message, hmessage, hrejected⟩, hmirrors⟩
  · obtain ⟨message, hmessage, haccepted⟩ := hi
    obtain ⟨message', hmessage', hsame⟩ := exists_getElem?_rank hlog hmessage haccepted
    have hi : AcceptedAt f.accepts a.topic.messages i := ⟨message, hmessage, haccepted⟩
    rw [hnow, ← hlen] at htake'
    obtain ⟨hspec', -, -⟩ := takeNext_frame htake'
    have htwins : Twins f taken.spec taken'.spec := by
      rw [hspec, hspec']
      exact h.twins
    have hrejects : filterRejects taken.spec message = false := by
      rw [htwins.filterRejects, haccepted]
      rfl
    have hturn := h.left.turn_of_some hlimit htake hmessage
    have hturn' := h.right.turn_of_some (h.length_eq ▸ hlimit) htake' hmessage'
    rw [serve_of_accepted (hspec ▸ h.left.undead) hrejects] at hturn
    rw [serve_of_accepted (hspec' ▸ h.right.undead) (htwins.filterRejects' message')] at hturn'
    exact Or.inr (Or.inr ⟨_, _, hturn, hturn',
      h.delivered hnow hi rfl hmirrors htwins hspec hsame (h.left.again hturn rfl rfl)
        (h.right.again hturn' rfl rfl)⟩)
  · have hturn := h.left.turn_of_some hlimit htake hmessage
    have hrejects : filterRejects taken.spec message = true := by
      rw [hspec, h.twins.filterRejects, hrejected]
      rfl
    rw [serve_of_rejected (hspec ▸ h.left.undead) hrejects] at hturn
    refine Or.inr (Or.inl ⟨_, hturn, ?_⟩)
    exact
      { h with
        left := h.left.again hturn rfl rfl
        twins := by
          have htwins := h.twins
          rw [← hspec] at htwins
          exact htwins
        mirrors := hmirrors.pass hmessage hrejected
        sourced := by
          have hsourced := h.sourced
          rw [← hspec] at hsourced
          exact hsourced }

/-! ### The loops -/

/-- The loop of `pull` on one side. -/
def Side.loop (a : Side) (limit fuel : ℕ) (p : Pulling) : PullEnd :=
  pullLoop a.env a.subscription a.topicName a.topic.messages.length limit fuel p

theorem Side.loop_of_stop {fuel : ℕ} (h : a.turn limit p = .stop) :
    a.loop limit fuel p = .finished p := by
  cases fuel with
  | zero => rfl
  | succ fuel =>
    unfold Side.turn at h
    simp only [Side.loop, pullLoop, h]

theorem Side.loop_of_again {fuel : ℕ} {p' : Pulling} (h : a.turn limit p = .again p') :
    a.loop limit (fuel + 1) p = a.loop limit fuel p' := by
  unfold Side.turn at h
  simp only [Side.loop, pullLoop, h]

variable (limit) in
/-- **Two loops in step end in step**, neither by a panic, if both are given enough
turns. -/
theorem InStep.loop {fuel fuel' : ℕ} (h : InStep f same pairs a b p q)
    (hlog : List.Forall₂ same (a.topic.messages.filter f.accepts) b.topic.messages)
    (hnow : a.env.now 0 = b.env.now 0) (hfuel : p.untaken a.topic.messages.length < fuel)
    (hfuel' : q.untaken b.topic.messages.length < fuel') :
    ∃ p' q', a.loop limit fuel p = .finished p' ∧ b.loop limit fuel' q = .finished q' ∧
      InStep f same pairs a b p' q' := by
  induction fuel generalizing p q fuel' with
  | zero => omega
  | succ fuel ih =>
    rcases h.turn hlog hnow with ⟨hstop, hstop'⟩ | ⟨p', hagain, h'⟩ |
      ⟨p', q', hagain, hagain', h'⟩
    · exact ⟨p, q, Side.loop_of_stop hstop, Side.loop_of_stop hstop', h⟩
    · -- the filter rejects a message: the other side waits
      have hless := untaken_turned (turned_of_again hagain).2
      rw [Side.loop_of_again hagain]
      exact ih h' (by omega) hfuel'
    · have hless := untaken_turned (turned_of_again hagain).2
      have hless' := untaken_turned (turned_of_again hagain').2
      obtain ⟨fuel', rfl⟩ : ∃ n, fuel' = n + 1 := ⟨fuel' - 1, by omega⟩
      rw [Side.loop_of_again hagain, Side.loop_of_again hagain']
      exact ih h' (by omega) (by omega)

end InStep

/-! ### Two whole pulls -/

section Pull

variable {f : AttributeFilter} {same : RelayMessage → RelayMessage → Prop}
  {pairs : Set (Text × Text)} {a b : Side} {sub sub' : SubscriptionState}
  {topics topics' : StrMap TopicState}

/-- The sweep leaves a plain pull to begin with. -/
theorem Side.plain_sweep (hx : Exclusive sub.ledger) (hn : Named a.subscription a.drawn sub)
    (htopic : topics[a.topicName]? = some a.topic) (hon : sub.spec.enableMessageOrdering = false)
    (hdead : sub.spec.deadLetter = none) : a.Plain { sub := sweep a.env sub, topics } := by
  obtain ⟨hspec, -, -, -⟩ := sweep_frame a.env sub
  obtain ⟨es, hes⟩ := sweep_trace a.env sub hx
  exact
    { exclusive := hes.exclusive hx
      named := (named_sweep hn).mono Set.subset_union_left
      topic := htopic
      unskipped := rfl
      unordered := by rw [hspec, hon]
      undead := by rw [hspec, hdead] }

/-- **Two pulls with the same limit**, from a filtered subscription and from its mirror
image, end in step. -/
theorem pullFrom_inStep {maxMessages : UInt32}
    (h : Mirrors f.accepts a.topic.messages pairs sub sub') (ht : Twins f sub.spec sub'.spec)
    (hone : OneToOne pairs)
    (hsourced : Sourced f.accepts a.topic.messages sub.spec.enableExactlyOnceDelivery
      a.subscription b.subscription a.drawn b.drawn pairs)
    (hx : Exclusive sub.ledger) (hx' : Exclusive sub'.ledger)
    (hn : Named a.subscription a.drawn sub) (hn' : Named b.subscription b.drawn sub')
    (htopicName : sub.spec.topic = a.topicName) (htopicName' : sub'.spec.topic = b.topicName)
    (htopic : topics[a.topicName]? = some a.topic)
    (htopic' : topics'[b.topicName]? = some b.topic)
    (hlog : List.Forall₂ same (a.topic.messages.filter f.accepts) b.topic.messages)
    (hnow : a.env.now 0 = b.env.now 0) (hsweep : SameSweep pairs a.env b.env sub sub') :
    ∃ p q, pullFrom a.env a.subscription maxMessages sub topics a.topic.messages.length =
        .finished p ∧
      pullFrom b.env b.subscription maxMessages sub' topics' b.topic.messages.length =
        .finished q ∧
      InStep f same pairs a b p q := by
  obtain ⟨hspec, -, -, -⟩ := sweep_frame a.env sub
  obtain ⟨hspec', -, -, -⟩ := sweep_frame b.env sub'
  have hnone : pairs ∪ handedTogether { sub := sweep a.env sub, topics }
      { sub := sweep b.env sub', topics := topics' } = pairs := by
    simp [handedTogether]
  have hstart : InStep f same pairs a b { sub := sweep a.env sub, topics }
      { sub := sweep b.env sub', topics := topics' } :=
    { left := Side.plain_sweep hx hn htopic ht.unordered ht.undead
      right := Side.plain_sweep hx' hn' htopic' ht.unordered' ht.undead'
      twins := by
        dsimp only
        rwa [hspec, hspec']
      mirrors := by
        rw [hnone]
        exact h.sweep ht hx hx' hnow hsweep
      oneToOne := by rwa [hnone]
      sourced := by
        dsimp only
        rw [hnone, hspec]
        exact hsourced.mono (List.prefix_refl _) Set.subset_union_left Set.subset_union_left
      deliveries := .nil }
  have hends := hstart.loop (clamp maxMessages 1 1000).toNat hlog hnow
    (untaken_lt_pullFuel (sweep a.env sub) topics) (untaken_lt_pullFuel (sweep b.env sub') topics')
  simp only [pullFrom, hspec, hspec', htopicName, htopicName']
  exact hends

end Pull

end RelayPubsub.Memory
