import RelayPubsub.Memory.Lease

/-!
# The ack ids handed out

An ack id is a random identifier, or the exactly-once id of the index leased
under it and of an attempt at that index. Either way it stands for one index
(`RelayPubsub.Memory.Traced`).

That no ack id is handed out twice rests on the counter of attempts: the next
id for an index carries the next attempt, so it is new as long as the counter is
not behind the ids already handed out (`RelayPubsub.Memory.Counted`). A seek
clears the counters, and a counter may wrap; the invariant
`RelayPubsub.Memory.OnceOnly` is the one that both can break, and that nothing
else breaks.
-/

namespace RelayPubsub.Memory

open Lib Lib.Ledger

/-! ### Attempts -/

/-- **The counters are not behind the ids**: an exactly-once id for an index at
or above `base` carries an attempt that has been counted, unless the counter has
wrapped. -/
def Counted (name : Text) (base : ℕ) (issued : List (Text × ℕ))
    (attempts : Std.ExtTreeMap ℕ UInt32 compare) : Prop :=
  ∀ i a, (exactlyOnceId name i a, i) ∈ issued →
    i < base ∨ ∃ n, attempts[i]? = some n ∧ (n = 0 ∨ 0 < a ∧ a ≤ n)

/-- One more attempt has not been counted before. -/
theorem ne_succ_of_le {n a : UInt32} (hpos : 0 < a) (hle : a ≤ n) : a ≠ n + 1 := by
  rintro rfl
  have hsucc := UInt32.toNat_add n 1
  rw [UInt32.lt_iff_toNat_lt] at hpos
  rw [UInt32.le_iff_toNat_le] at hle
  have hlt := n.toNat_lt
  simp at hsucc hpos hle
  omega

/-- What has been counted stays counted. -/
theorem le_succ_of_le {n a : UInt32} (ha : n = 0 ∨ 0 < a ∧ a ≤ n) (hn : n ≠ 0) :
    n + 1 = 0 ∨ 0 < a ∧ a ≤ n + 1 := by
  rcases ha with rfl | ⟨hpos, hle⟩
  · exact absurd rfl hn
  · refine or_iff_not_imp_left.mpr fun hwrap => ⟨hpos, ?_⟩
    have hsucc := UInt32.toNat_add n 1
    have hlt := n.toNat_lt
    rw [← UInt32.toNat_inj] at hwrap
    rw [UInt32.le_iff_toNat_le] at hle ⊢
    simp at hsucc hwrap hle ⊢
    omega

section Counters

variable {name : Text} {base index : ℕ} {issued : List (Text × ℕ)}
  {attempts : Std.ExtTreeMap ℕ UInt32 compare}

/-- Counting one more attempt at an index. -/
theorem Counted.count (h : Counted name base issued attempts) (hindex : attempts[index]? ≠ some 0) :
    Counted name base issued (attempts.insert index (attempts[index]?.getD 0 + 1)) := by
  intro i a hmem
  refine (h i a hmem).imp_right ?_
  rintro ⟨n, hn, ha⟩
  rcases eq_or_ne index i with rfl | hne
  · have hzero : n ≠ 0 := fun hz => hindex (hz ▸ hn)
    refine ⟨n + 1, ?_, le_succ_of_le ha hzero⟩
    rw [Std.ExtTreeMap.getElem?_insert_self, hn, Option.getD_some]
  · exact ⟨n, by rwa [getElem?_insert_of_ne hne], ha⟩

/-- Handing out an id with the attempt that has been counted. -/
theorem Counted.concat {ackId : Text} (h : Counted name base issued attempts)
    (hid : ∀ a, ackId = exactlyOnceId name index a → attempts[index]? = some a) :
    Counted name base (issued ++ [(ackId, index)]) attempts := by
  intro i a hmem
  rcases List.mem_append.mp hmem with hmem | hmem
  · exact h i a hmem
  · obtain ⟨rfl, rfl⟩ := Prod.mk.inj (List.mem_singleton.mp hmem)
    refine Or.inr ⟨a, hid a rfl, ?_⟩
    rcases eq_or_ne a 0 with hzero | hpos
    · exact Or.inl hzero
    · exact Or.inr ⟨UInt32.pos_iff_ne_zero.mpr hpos, UInt32.le_refl a⟩

end Counters

/-! ### Where the ids come from -/

/-- **Every ack id handed out stands for one index**, and is the exactly-once id
of that index or a random identifier. -/
structure Traced (name : Text) (drawn : Set Text) (issued : List (Text × ℕ)) : Prop where
  origin : ∀ x ∈ issued, (∃ a, x.1 = exactlyOnceId name x.2 a) ∨ x.1 ∈ drawn
  single : ∀ x ∈ issued, ∀ y ∈ issued, x.1 = y.1 → x.2 = y.2

/-- The id is the exactly-once id of the index and the attempt, or random and not
drawn before. -/
def NewId (name : Text) (drawn : Set Text) (index : ℕ) (a : UInt32) (ackId : Text) : Prop :=
  ackId = exactlyOnceId name index a ∨ ':' ∉ ackId ∧ ackId ∉ drawn

section Traced

variable {name ackId : Text} {drawn drawn' : Set Text} {issued : List (Text × ℕ)} {index : ℕ}
  {a : UInt32}

theorem Traced.mono (h : Traced name drawn issued) (hsub : drawn ⊆ drawn') :
    Traced name drawn' issued :=
  ⟨fun x hx => (h.origin x hx).imp_right fun hd => hsub hd, h.single⟩

/-- **An id can be handed out again only as an exactly-once id**, for the same
index and the same attempt. -/
theorem Traced.eq_of_reused (h : Traced name drawn issued) (hcolon : ∀ t ∈ drawn, ':' ∉ t)
    (hnew : NewId name drawn index a ackId) {x : Text × ℕ} (hx : x ∈ issued) (heq : x.1 = ackId) :
    x = (exactlyOnceId name index a, index) := by
  obtain ⟨id, i⟩ := x
  obtain rfl : id = ackId := heq
  rcases h.origin _ hx with ⟨b, hb⟩ | hmem
  · obtain rfl : id = exactlyOnceId name i b := hb
    rcases hnew with hid | ⟨hnone, -⟩
    · obtain ⟨rfl, rfl⟩ := exactlyOnceId_injective hid
      rfl
    · exact absurd (colon_mem_exactlyOnceId name i b) hnone
  · rcases hnew with rfl | ⟨-, hnone⟩
    · exact absurd (colon_mem_exactlyOnceId name index a) (hcolon _ hmem)
    · exact absurd hmem hnone

/-- One more id handed out. -/
theorem Traced.concat (h : Traced name drawn issued) (hcolon : ∀ t ∈ drawn, ':' ∉ t)
    (hsub : drawn ⊆ drawn') (hnew : NewId name drawn index a ackId)
    (horigin : ackId = exactlyOnceId name index a ∨ ackId ∈ drawn') :
    Traced name drawn' (issued ++ [(ackId, index)]) := by
  have hold : ∀ x ∈ issued, x.1 = ackId → x.2 = index := by
    intro x hx heq
    rw [h.eq_of_reused hcolon hnew hx heq]
  refine ⟨fun x hx => ?_, fun x hx y hy heq => ?_⟩
  · rcases List.mem_append.mp hx with hx | hx
    · exact (h.mono hsub).origin x hx
    · obtain rfl := List.mem_singleton.mp hx
      exact horigin.imp_left fun hid => ⟨a, hid⟩
  · rcases List.mem_append.mp hx with hx | hx <;> rcases List.mem_append.mp hy with hy | hy
    · exact h.single x hx y hy heq
    · obtain rfl := List.mem_singleton.mp hy
      exact hold x hx heq
    · obtain rfl := List.mem_singleton.mp hx
      exact (hold y hy heq.symm).symm
    · rw [List.mem_singleton.mp hx, List.mem_singleton.mp hy]

end Traced

/-! ### The loop of a pull -/

section Loop

variable {env : Env} {name topicName : Text} {topicLen base : ℕ} {drawn : Set Text}
  {issued : List (Text × ℕ)} {p p' : Pulling}

/-- **What a turn counts and hands out.** -/
inductive Counts (env : Env) (name : Text) (p p' : Pulling) : Prop
  /-- The index taken is passed over, or put back. -/
  | nothing : p'.handed = p.handed → p'.sub.attempts = p.sub.attempts → Counts env name p p'
  /-- An attempt at the index taken is counted, and the index is done. -/
  | settled {index : ℕ} {sub : SubscriptionState} : Take p.sub.ledger index sub.ledger →
      p'.handed = p.handed →
      p'.sub.attempts = p.sub.attempts.insert index (p.sub.nextAttempt index) →
      index ∈ p'.sub.acked → Counts env name p p'
  /-- An attempt at the index taken is counted, and the index is leased under
  the id of that attempt, or under a random one. -/
  | leased {index : ℕ} {sub : SubscriptionState} {ackId : Text} :
      Take p.sub.ledger index sub.ledger → p'.handed = p.handed ++ [(ackId, index)] →
      p'.sub.attempts = p.sub.attempts.insert index (p.sub.nextAttempt index) →
      p'.sub.ledger.Held index →
      ackId = exactlyOnceId name index (p.sub.nextAttempt index) ∨
        ackId = (env.uuid p.draws).text ∧ p.draws < p'.draws → Counts env name p p'

theorem counts_of_turned (h : Turned env name topicName topicLen p p') :
    Counts env name p p' ∧ p.draws ≤ p'.draws := by
  cases h with
  | skip htake _ => exact ⟨.nothing rfl (takeNext_frame htake).2.1, le_rfl⟩
  | block htake _ _ _ _ => exact ⟨.nothing rfl (takeNext_frame htake).2.1, le_rfl⟩
  | @serve index sub topic message _ htake hacked hleased htopic hblocked hmessage hserved =>
    obtain ⟨-, hattempts, -⟩ := takeNext_frame htake
    have hnext : sub.attempts.insert index (sub.nextAttempt index) =
        p.sub.attempts.insert index (p.sub.nextAttempt index) := by
      simp only [SubscriptionState.nextAttempt, hattempts]
    cases hserved with
    | dead _ =>
      exact ⟨.settled (takeNext_take htake) rfl hnext (Finset.mem_insert_self _ _), Nat.le_succ _⟩
    | filtered _ =>
      exact ⟨.settled (takeNext_take htake) rfl hnext (Finset.mem_insert_self _ _), le_rfl⟩
    | delivered _ =>
      let q : Pulling := { p with sub := sub.countAttempt index }
      have hheld : (q.sub.lease (ackIdFor env name q index (sub.nextAttempt index))
          ⟨index, env.now 0 +
            seconds (normalizeAckDeadline q.sub.spec.ackDeadlineSeconds)⟩).ledger.Held index := by
        rw [SubscriptionState.ledger_addLease]
        exact held_addLease _ _ _
      have hhanded : (deliver env name q index (sub.nextAttempt index) message).handed =
          q.handed ++ [(ackIdFor env name q index (sub.nextAttempt index), index)] := by
        simp [Pulling.handed, deliver]
      refine ⟨.leased (takeNext_take htake) hhanded hnext hheld ?_, ?_⟩
      · have hattempt : sub.nextAttempt index = p.sub.nextAttempt index := by
          simp only [SubscriptionState.nextAttempt, hattempts]
        rw [← hattempt]
        exact ackIdFor_cases q index _ message
      · exact draws_le_deliver q index _ message

/-- **The invariant of the loop**: no id has been handed out twice, the counters
are not behind the ids, and an index whose counter has wrapped is not available. -/
structure OnceOnly (name : Text) (base : ℕ) (issued : List (Text × ℕ)) (p : Pulling) : Prop where
  nodup : ((issued ++ p.handed).map Prod.fst).Nodup
  counted : Counted name base (issued ++ p.handed) p.sub.attempts
  wrapped : ∀ i, p.sub.attempts[i]? = some 0 → i ∈ p.sub.acked ∨ p.sub.ledger.Held i

/-- The id of the next attempt, or the next random identifier, is new to what has
been drawn. -/
theorem newId_of_draw (hd : Undrawn env drawn) {index : ℕ} {a : UInt32} {ackId : Text} {n : ℕ}
    (h : ackId = exactlyOnceId name index a ∨ ackId = (env.uuid n).text) :
    NewId name (drawn ∪ drawnUpTo env n) index a ackId := by
  refine h.imp_right ?_
  rintro rfl
  refine ⟨(env.uuid n).colon_notMem, ?_⟩
  rintro (hmem | ⟨k, hk, heq⟩)
  · exact hd.apart _ hmem n rfl
  · exact absurd (env.uuid_inj heq) (by omega)

/-- One turn hands out an id that stands for one index. -/
theorem traced_turn (hd : Undrawn env drawn)
    (ht : Traced name (drawn ∪ drawnUpTo env p.draws) (issued ++ p.handed))
    (h : Turned env name topicName topicLen p p') :
    Traced name (drawn ∪ drawnUpTo env p'.draws) (issued ++ p'.handed) := by
  obtain ⟨hcounts, hdraws⟩ := counts_of_turned h
  have hmono := Set.union_subset_union_right drawn (drawnUpTo_mono env hdraws)
  cases hcounts with
  | nothing hhanded _ | settled _ hhanded _ _ =>
    rw [hhanded]
    exact ht.mono hmono
  | leased _ hhanded _ _ hid =>
    rw [hhanded, ← List.append_assoc]
    refine ht.concat (hd.colon_union _) hmono (newId_of_draw hd (hid.imp_right And.left)) ?_
    refine hid.imp_right ?_
    rintro ⟨rfl, hlt⟩
    exact Or.inr ⟨p.draws, hlt, rfl⟩

/-- **One turn hands out a new id**, as long as the counters are not behind. -/
theorem onceOnly_turn (hd : Undrawn env drawn)
    (ht : Traced name (drawn ∪ drawnUpTo env p.draws) (issued ++ p.handed))
    (hx : Exclusive p.sub.ledger) (ha : Above base p.sub.ledger) {e : Event Text}
    (hm : Move p.sub.ledger e p'.sub.ledger) (hservice : e.IsService)
    (h : Turned env name topicName topicLen p p') (ho : OnceOnly name base issued p) :
    OnceOnly name base issued p' := by
  have hkept : ∀ i, i ∈ p.sub.acked ∨ p.sub.ledger.Held i →
      i ∈ p'.sub.acked ∨ p'.sub.ledger.Held i := by
    intro i hi
    exact hi.imp (fun hi => hm.done_subset (Event.not_isRewind_of_isService hservice) hi)
      (hm.held_of_service hservice)
  -- the counter of an index in hand has not wrapped
  have hfree : ∀ {index : ℕ} {sub : SubscriptionState}, Take p.sub.ledger index sub.ledger →
      p.sub.attempts[index]? ≠ some 0 := by
    intro index sub htake hzero
    obtain ⟨-, hin⟩ := hx.take htake
    rcases ho.wrapped index hzero with hdone | hheld
    · exact hin.done (htake.done_eq ▸ hdone)
    · exact hin.held (htake.held_iff.mpr hheld)
  have hwrapped : ∀ {index : ℕ}, index ∈ p'.sub.acked ∨ p'.sub.ledger.Held index →
      p'.sub.attempts = p.sub.attempts.insert index (p.sub.nextAttempt index) →
      ∀ i, p'.sub.attempts[i]? = some 0 → i ∈ p'.sub.acked ∨ p'.sub.ledger.Held i := by
    intro index hindex hattempts i hi
    rcases eq_or_ne index i with rfl | hne
    · exact hindex
    · rw [hattempts, getElem?_insert_of_ne hne] at hi
      exact hkept i (ho.wrapped i hi)
  -- what the turn adds to the ids handed out, and to the counters
  obtain ⟨hcounts, -⟩ := counts_of_turned h
  cases hcounts with
  | nothing hhanded hattempts =>
    refine ⟨by rw [hhanded]; exact ho.nodup, by rw [hhanded, hattempts]; exact ho.counted, ?_⟩
    intro i hi
    exact hkept i (ho.wrapped i (hattempts ▸ hi))
  | settled htake hhanded hattempts hacked =>
    refine ⟨by rw [hhanded]; exact ho.nodup, ?_, hwrapped (Or.inl hacked) hattempts⟩
    rw [hhanded, hattempts]
    exact ho.counted.count (hfree htake)
  | @leased index sub ackId htake hhanded hattempts hheld hid =>
    have hnew := newId_of_draw hd (hid.imp_right And.left)
    refine ⟨?_, ?_, hwrapped (Or.inr hheld) hattempts⟩
    · rw [hhanded, ← List.append_assoc, List.map_append, List.map_cons, List.map_nil,
        ← List.concat_eq_append, List.nodup_concat]
      refine ⟨fun hmem => ?_, ho.nodup⟩
      obtain ⟨x, hx, heq⟩ := List.mem_map.mp hmem
      -- an id that is equal has been made for the same index, with an earlier attempt
      rw [ht.eq_of_reused (hd.colon_union _) hnew hx heq] at hx
      rcases ho.counted _ _ hx with hbelow | ⟨n, hn, hle⟩
      · exact absurd (ha.take htake).2 (by omega)
      · rcases hle with rfl | ⟨hpos, hle⟩
        · exact hfree htake hn
        · refine ne_succ_of_le hpos hle ?_
          simp [SubscriptionState.nextAttempt, hn]
    · rw [hhanded, ← List.append_assoc, hattempts]
      -- the new id carries the attempt that has just been counted
      refine (ho.counted.count (hfree htake)).concat fun a ha => ?_
      rw [Std.ExtTreeMap.getElem?_insert_self]
      rcases hid with rfl | ⟨rfl, -⟩
      · rw [← (exactlyOnceId_injective ha).2]
        rfl
      · refine absurd (colon_mem_exactlyOnceId name index a) ?_
        rw [← ha]
        exact (env.uuid p.draws).colon_notMem

/-- **The whole loop hands out ids that stand for one index each, and are new**
as long as the counters are not behind. -/
theorem ids_of_turns (h : Relation.ReflTransGen (Turned env name topicName topicLen) p p')
    (hd : Undrawn env drawn) (hx : Exclusive p.sub.ledger) (ha : Above base p.sub.ledger)
    (hn : Named name (drawn ∪ drawnUpTo env p.draws) p.sub)
    (ht : Traced name (drawn ∪ drawnUpTo env p.draws) (issued ++ p.handed)) :
    Traced name (drawn ∪ drawnUpTo env p'.draws) (issued ++ p'.handed) ∧
      (OnceOnly name base issued p → OnceOnly name base issued p') := by
  induction h using Relation.ReflTransGen.head_induction_on with
  | refl => exact ⟨ht, id⟩
  | head hturn _ ih =>
    obtain ⟨e, he⟩ := @turned_serves _ _ _ _ _ False [] _ _ hx hn hd False.elim False.elim hturn
    have hr : ¬e.IsRewind := Event.not_isRewind_of_isService he.service
    obtain ⟨htraced, honce⟩ :=
      ih (hx.move he.move) (ha.move he.move hr) he.named (traced_turn hd ht hturn)
    exact ⟨htraced, fun ho => honce (onceOnly_turn hd ht hx ha he.move he.service hturn ho)⟩

end Loop

/-! ### Runs -/

variable {serde : SerdeJson}

/-- **Seeks go past what has been handed out, and no counter has wrapped.** -/
structure Advances (name : Text) (w : Watched) (s : Step) : Prop where
  /-- A seek lets no index wait again that has been leased under an exactly-once
  id. -/
  seek : ∀ n, seekTarget name w.state s = some n →
    ∀ i a, (exactlyOnceId name i a, i) ∈ w.issued → i < n
  /-- When messages are pulled, those whose counter of attempts has wrapped are
  acked. -/
  pull : ∀ maxMessages sub, s.call = .pull name maxMessages →
    w.state.subscriptions[name]? = some sub → ∀ i, sub.attempts[i]? = some 0 → i ∈ sub.acked

/-- **No id has been handed out twice**, and the counters are not behind. -/
structure Distinct (name : Text) (w : Watched) : Prop where
  nodup : (w.issued.map Prod.fst).Nodup
  counted : ∀ sub, w.state.subscriptions[name]? = some sub →
    Counted name w.base w.issued sub.attempts

section Runs

variable {name : Text} {past : List Step} {s : Step} {w : Watched}

/-- **The ids a pull hands out.** -/
theorem ids_of_pull (hfresh : (past ++ [s]).Pairwise Step.Apart) {maxMessages : UInt32}
    {sub : SubscriptionState} {topics : StrMap TopicState} {topicLen : ℕ} {p : Pulling}
    (hp : pullFrom s.env name maxMessages sub topics topicLen = .finished p)
    (hsound : Sound name past w sub) (ht : Traced name (drawnIn past) w.issued) :
    Traced name (drawnIn (past ++ [s])) (w.issued ++ p.handed) ∧
      ((w.issued.map Prod.fst).Nodup → Counted name w.base w.issued sub.attempts →
        (∀ i, sub.attempts[i]? = some 0 → i ∈ sub.acked) →
        ((w.issued ++ p.handed).map Prod.fst).Nodup ∧
          Counted name w.base (w.issued ++ p.handed) p.sub.attempts) := by
  obtain ⟨-, -, hacked, hattempts⟩ := sweep_frame s.env sub
  obtain ⟨es, hes⟩ := sweep_trace s.env sub hsound.exclusive
  have habove : Above w.base (sweep s.env sub).ledger := by
    refine hes.above (fun _ e he => ?_) hsound.above
    obtain ⟨k, i, rfl⟩ := he
    exact id
  obtain ⟨htraced, honce⟩ := ids_of_turns (turns_of_finished hp)
    (undrawn_of_apart hfresh) (hes.exclusive hsound.exclusive) habove
    ((named_sweep hsound.named).mono Set.subset_union_left)
    (by simpa [Pulling.handed] using ht.mono Set.subset_union_left)
  refine ⟨?_, fun hnodup hcounted hwrapped => ?_⟩
  · rw [drawnIn_concat]
    exact htraced.mono (Set.union_subset_union_right _ (drawnUpTo_subset _ _))
  · have hend := honce ⟨by simpa [Pulling.handed] using hnodup,
      by simpa [Pulling.handed, hattempts] using hcounted,
      fun i hi => Or.inl (hacked ▸ hwrapped i (hattempts ▸ hi))⟩
    exact ⟨hend.nodup, hend.counted⟩

/-- The ids handed out after a step. -/
theorem issued_step (serde : SerdeJson) (name : Text) (w : Watched) (s : Step) :
    (w.step serde name s).issued = [] ∨
      (w.step serde name s).issued = w.issued ++ granted name w.state s := by
  unfold Watched.step
  dsimp only
  split
  · exact Or.inl rfl
  · exact Or.inr rfl

/-- One step hands out ids that stand for one index each. -/
theorem traced_step (hfresh : (past ++ [s]).Pairwise Step.Apart)
    (hsound : ∀ sub, w.state.subscriptions[name]? = some sub → Sound name past w sub)
    (ht : Traced name (drawnIn past) w.issued) :
    Traced name (drawnIn (past ++ [s])) (w.step serde name s).issued := by
  rcases issued_step serde name w s with hnil | hissued
  · rw [hnil]
    constructor <;> simp
  · rw [hissued]
    rcases granted_cases name w.state s with hnone | ⟨_, sub, topic, p, -, hsub, -, hp, hgranted⟩
    · rw [hnone, List.append_nil, drawnIn_concat]
      exact ht.mono Set.subset_union_left
    · rw [hgranted]
      exact (ids_of_pull hfresh hp (hsound sub hsub) ht).1

/-- **Every ack id handed out stands for one index**, in every run. -/
theorem traced_watch (hfresh : past.Pairwise Step.Apart) :
    Traced name (drawnIn past) (watch serde name past).issued := by
  induction past using List.reverseRecOn with
  | nil => constructor <;> simp [watch]
  | append_singleton past s ih =>
    rw [watch_concat]
    have hpast := (List.pairwise_append.mp hfresh).1
    exact traced_step hfresh (fun sub hsub => sound_watch hpast hsub) (ih hpast)

/-- A step that hands out nothing and leaves the cursor and the attempts. -/
theorem Distinct.quiet {sub sub' : SubscriptionState} (h : Distinct name w)
    (hsub : w.state.subscriptions[name]? = some sub) (hr : seekTarget name w.state s = none)
    (hg : granted name w.state s = []) (hattempts : sub'.attempts = sub.attempts) :
    Counted name ((seekTarget name w.state s).getD w.base) (w.issued ++ granted name w.state s)
      sub'.attempts := by
  rw [hr, hg, List.append_nil, hattempts]
  exact h.counted sub hsub

/-- **A step that advances hands out no id again.** -/
theorem distinct_step (hfresh : (past ++ [s]).Pairwise Step.Apart)
    (hsound : ∀ sub, w.state.subscriptions[name]? = some sub → Sound name past w sub)
    (ht : Traced name (drawnIn past) w.issued) (hadv : Advances name w s)
    (hd : Distinct name w) : Distinct name (w.step serde name s) := by
  -- only a pull adds to the ids
  have hnodup : ((w.step serde name s).issued.map Prod.fst).Nodup := by
    rcases issued_step serde name w s with hnil | hissued
    · simp [hnil]
    · rw [hissued]
      rcases granted_cases name w.state s with
        hnone | ⟨_, sub, topic, p, hcall, hsub, -, hp, hgranted⟩
      · rw [hnone, List.append_nil]
        exact hd.nodup
      · rw [hgranted]
        exact ((ids_of_pull hfresh hp (hsound sub hsub) ht).2 hd.nodup (hd.counted sub hsub)
          (hadv.pull _ sub hcall hsub)).1
  -- and only a pull, or a seek, changes the counters
  refine ⟨hnodup, fun sub' hsub' => ?_⟩
  rw [Watched.step_state] at hsub'
  have htouch := touch_of_exec serde name w.state s
  rw [hsub'] at htouch
  rcases hsub : w.state.subscriptions[name]? with - | sub
  · rw [Watched.step_of_none hsub hsub']
    intro i a hmem
    exact absurd hmem List.not_mem_nil
  rw [Watched.step_of_some hsub]
  rw [hsub] at htouch
  cases htouch with
  | same _ hr hg => exact hd.quiet hsub hr hg rfl
  | respec hr hg _ => exact hd.quiet hsub hr hg rfl
  | acknowledge _ hr hg =>
    exact hd.quiet hsub hr hg (acknowledgeEach_frame _ _ _ _).2.2.1
  | modify _ hr hg => exact hd.quiet hsub hr hg (modify_frame _ _ _ _).2.2.1
  | pull hcall _ hp hr hg =>
    have hids := (ids_of_pull hfresh hp (hsound sub hsub) ht).2 hd.nodup (hd.counted sub hsub)
      (hadv.pull _ sub hcall hsub)
    rw [hr, hg]
    exact hids.2
  | rewind hr hg =>
    intro i a hmem
    rw [hg, List.append_nil] at hmem
    rw [hr]
    exact Or.inl (hadv.seek _ hr i a hmem)

/-- **No id is handed out twice in a run that advances.** -/
theorem distinct_watch (r : Run)
    (hadv : Machine.Guarded (Watched.step serde name) (Advances name) {} r.steps) :
    ∀ past, past <+: r.steps → Distinct name (watch serde name past) := by
  refine Machine.invariant (P := fun _ w => Distinct name w) ?_ fun past s hpast hd => ?_
  · constructor <;> simp
  · have hfresh := r.fresh.sublist hpast.sublist
    have hfresh' := (List.pairwise_append.mp hfresh).1
    exact distinct_step hfresh (fun sub hsub => sound_watch hfresh' hsub) (traced_watch hfresh')
      (hadv past s hpast) hd

end Runs

end RelayPubsub.Memory
