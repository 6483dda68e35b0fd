import RelayPubsub.RelayEvents.Publish

/-!
# Automatic idempotency keys

A forwarded message without a publisher's id gets a key of its own: a hash of its
topic, its source, its severity and its data, joined by `|`. The join can be read
back, and so the key tells the event from every other, exactly if it has no other
place to be cut at (`RelayPubsub.RelayEvents.key_distinguishes_iff`): no `|` in
the topic, the source or the severity, and none in the data after a beginning
that is UTF-8, which might as well be the end of a severity.

The hash enters as a function without collisions on a set of inputs.
-/

namespace RelayPubsub.RelayEvents

open Lib Memory

def source (m : NewMessage) : Text := m.attributes["source".toList]?.getD []

def severity (m : NewMessage) : Text := m.attributes["severity".toList]?.getD []

/-- A message without an id of its publisher. -/
structure Automatic (m : NewMessage) : Prop where
  messageId : m.messageId = []
  idempotencyKey : m.attributes["idempotency_key".toList]?.getD [] = []

/-- What the automatic key is to tell apart. -/
structure SameEvent (t : Text) (m : NewMessage) (t' : Text) (m' : NewMessage) : Prop where
  topic : t = t'
  source : source m = source m'
  severity : severity m = severity m'
  data : m.data = m'.data

/-- **The join can be cut in one place only.** -/
structure Separable (t : Text) (m : NewMessage) : Prop where
  topic : '|' ∉ t
  source : '|' ∉ source m
  severity : '|' ∉ severity m
  data : ∀ s : Text, ¬asBytes s ++ asBytes "|" <+: m.data

/-! ### The hexadecimal digits -/

theorem digitChar_injOn : Set.InjOn Nat.digitChar {n | n < 16} := by
  have h : ∀ m < 16, ∀ n < 16, Nat.digitChar m = Nat.digitChar n → m = n := by decide
  exact fun m hm n hn => h m hm n hn

theorem hexByte_injective : Function.Injective hexByte := by
  intro a b h
  have ha : a.toNat < 256 := a.toNat_lt
  have hb : b.toNat < 256 := b.toNat_lt
  obtain ⟨hhigh, hlow⟩ := List.cons.inj h
  have hdiv : a.toNat / 16 = b.toNat / 16 :=
    digitChar_injOn (show a.toNat / 16 < 16 by omega) (show b.toNat / 16 < 16 by omega) hhigh
  have hmod : a.toNat % 16 = b.toNat % 16 :=
    digitChar_injOn (Nat.mod_lt _ (by decide)) (Nat.mod_lt _ (by decide)) (List.cons.inj hlow).1
  exact UInt8.toNat_inj.mp (by omega)

theorem flatMap_hexByte_injective : Function.Injective fun l : Bytes => l.flatMap hexByte := by
  intro l l' h
  dsimp only at h
  induction l generalizing l' with
  | nil =>
    cases l' with
    | nil => rfl
    | cons b l' => cases h
  | cons a l ih =>
    cases l' with
    | nil => cases h
    | cons b l' =>
      rw [List.flatMap_cons, List.flatMap_cons] at h
      obtain ⟨hbyte, hrest⟩ := List.append_inj h rfl
      rw [hexByte_injective hbyte, ih hrest]

section Keys

variable {crates : Crates} {t t' : Text} {m m' : NewMessage}

theorem idempotencyKey_of_automatic (h : Automatic m) :
    idempotencyKey crates t m = autoKey crates (hashed t m) := by
  have hkey := h.idempotencyKey
  unfold idempotencyKey
  rw [if_neg (not_not.mpr h.messageId)]
  split
  · rename_i key hsome
    rw [hsome, Option.getD_some] at hkey
    rw [if_neg (not_not.mpr hkey)]
  · rfl

/-- Two inputs have the same automatic key exactly if their hashes begin alike. -/
theorem autoKey_eq_iff {a b : Bytes} :
    autoKey crates a = autoKey crates b ↔
      (crates.sha256 a).take 16 = (crates.sha256 b).take 16 := by
  unfold autoKey
  rw [List.append_cancel_left_eq]
  exact flatMap_hexByte_injective.eq_iff

end Keys

/-! ### Reading the join back -/

/-- The part of the join that is text. -/
def joined (t : Text) (m : NewMessage) : Text := t ++ '|' :: (source m ++ '|' :: severity m)

section Join

variable {t t' : Text} {m m' : NewMessage}

theorem hashed_eq : hashed t m = asBytes (joined t m) ++ 0x7c :: m.data := by
  have hbar : asBytes "|" = [0x7c] := by decide
  have hcons : ∀ s : Text, asBytes ('|' :: s) = 0x7c :: asBytes s := fun s => asBytes_cons _ s
  unfold hashed joined source severity
  simp only [asBytes_append, hcons, hbar, List.append_assoc, List.cons_append, List.nil_append]

theorem count_joined : (joined t m).count '|' =
    t.count '|' + (source m).count '|' + (severity m).count '|' + 2 := by
  unfold joined
  simp only [List.count_append, List.count_cons_self]
  omega

/-- The text that is joined can be read back where it has no other `|`. -/
theorem fields_of_joined (ht : '|' ∉ t) (hs : '|' ∉ source m) (ht' : '|' ∉ t')
    (hs' : '|' ∉ source m') (h : joined t m = joined t' m') :
    t = t' ∧ source m = source m' ∧ severity m = severity m' := by
  unfold joined at h
  have hfirst := congrArg (splitOnce '|') h
  rw [splitOnce_append ht, splitOnce_append ht'] at hfirst
  obtain ⟨htopic, hrest⟩ := Prod.mk.inj (Option.some.inj hfirst)
  have hsecond := congrArg (splitOnce '|') hrest
  rw [splitOnce_append hs, splitOnce_append hs'] at hsecond
  exact ⟨htopic, Prod.mk.inj (Option.some.inj hsecond)⟩

/-- **A join with one place to cut is that of one event only.** -/
theorem sameEvent_of_hashed_eq (h : Separable t m) (heq : hashed t m = hashed t' m') :
    SameEvent t m t' m' := by
  have hcount : (joined t m).count '|' = 2 := by
    rw [count_joined, List.count_eq_zero.mpr h.topic, List.count_eq_zero.mpr h.source,
      List.count_eq_zero.mpr h.severity]
  have hcount' := count_joined (t := t') (m := m')
  have hboth : asBytes (joined t m) = asBytes (joined t' m') ∧ m.data = m'.data := by
    rw [hashed_eq, hashed_eq] at heq
    rcases List.append_eq_append_iff.mp heq with ⟨z, hjoined, hdata⟩ | ⟨z, hjoined, hdata⟩
    · cases z with
      | nil => exact ⟨(by simpa using hjoined.symm), (List.cons.inj hdata).2⟩
      | cons b z =>
        -- the other severity would end in the data
        obtain ⟨rfl, hsplit⟩ := List.cons.inj hdata
        obtain ⟨s₁, s₂, -, -, rfl⟩ := asBytes_eq_append_cons (c := '|') rfl (by decide) hjoined
        exact absurd ⟨m'.data, by rw [hsplit, List.append_assoc]; rfl⟩ (h.data s₂)
    · cases z with
      | nil => exact ⟨(by simpa using hjoined), (List.cons.inj hdata).2.symm⟩
      | cons b z =>
        -- there would be a third separator in the text
        obtain ⟨rfl, -⟩ := List.cons.inj hdata
        obtain ⟨s₁, s₂, hsplit, hs₁, -⟩ := asBytes_eq_append_cons (c := '|') rfl (by decide) hjoined
        rw [asBytes_injective hs₁] at hsplit
        rw [hsplit, List.count_append, List.count_cons_self] at hcount
        omega
  have hjoined := asBytes_injective hboth.1
  rw [← hjoined, hcount] at hcount'
  have ht' : '|' ∉ t' := List.count_eq_zero.mp (by omega)
  have hs' : '|' ∉ source m' := List.count_eq_zero.mp (by omega)
  obtain ⟨htopic, hsource, hseverity⟩ := fields_of_joined h.topic h.source ht' hs' hjoined
  exact ⟨htopic, hsource, hseverity, hboth.2⟩

end Join

/-! ### Another event with the same join -/

/-- A message with these fields, and no id of its publisher. -/
def eventMessage (source severity : Text) (data : Bytes) : NewMessage where
  data
  attributes :=
    ((∅ : StrMap Text).insert "source".toList source).insert "severity".toList severity

section Event

variable (a b : Text) (d : Bytes)

theorem source_eventMessage : source (eventMessage a b d) = a := by
  unfold source eventMessage
  dsimp only
  rw [getElem?_insert_of_ne (by decide), Std.ExtTreeMap.getElem?_insert_self, Option.getD_some]

theorem severity_eventMessage : severity (eventMessage a b d) = b := by
  unfold severity eventMessage
  dsimp only
  rw [Std.ExtTreeMap.getElem?_insert_self, Option.getD_some]

theorem automatic_eventMessage : Automatic (eventMessage a b d) := by
  refine ⟨rfl, ?_⟩
  unfold eventMessage
  dsimp only
  rw [getElem?_insert_of_ne (by decide), getElem?_insert_of_ne (by decide)]
  rfl

/-- The join, where the four fields are given. -/
theorem hashed_eventMessage (t : Text) : hashed t (eventMessage a b d) =
    asBytes t ++ asBytes "|" ++ asBytes a ++ asBytes "|" ++ asBytes b ++ asBytes "|" ++ d := by
  have ha := source_eventMessage a b d
  have hb := severity_eventMessage a b d
  unfold source at ha
  unfold severity at hb
  unfold hashed
  rw [ha, hb]
  rfl

end Event

/-- **A join with another place to cut is that of another event too.** -/
theorem separable_of_sameEvent {t : Text} {m : NewMessage} (ht : '/' ∉ t)
    (h : ∀ t' m', '/' ∉ t' → Automatic m' → hashed t m = hashed t' m' → SameEvent t m t' m') :
    Separable t m := by
  have hcons : ∀ s : Text, asBytes ('|' :: s) = asBytes "|" ++ asBytes s :=
    fun s => asBytes_cons _ s
  have hjoin : hashed t m = asBytes t ++ asBytes "|" ++ asBytes (source m) ++ asBytes "|" ++
      asBytes (severity m) ++ asBytes "|" ++ m.data := rfl
  -- whatever four fields have the same join are those of the event
  have hcut : ∀ t' a b d, '/' ∉ t' →
      hashed t m = asBytes t' ++ asBytes "|" ++ asBytes a ++ asBytes "|" ++ asBytes b ++
        asBytes "|" ++ d → t = t' ∧ source m = a ∧ severity m = b := by
    intro t' a b d ht' heq
    obtain ⟨htopic, hsource, hseverity, -⟩ := h t' (eventMessage a b d) ht'
      (automatic_eventMessage a b d) (heq.trans (hashed_eventMessage a b d t').symm)
    rw [source_eventMessage] at hsource
    rw [severity_eventMessage] at hseverity
    exact ⟨htopic, hsource, hseverity⟩
  refine ⟨fun hbar => ?_, fun hbar => ?_, fun hbar => ?_, fun s hbar => ?_⟩
  · obtain ⟨x, y, hxy⟩ := List.append_of_mem hbar
    have hx : '/' ∉ x := fun hmem => ht (hxy ▸ List.mem_append_left _ hmem)
    have heq := (hcut x y (source m) (asBytes (severity m) ++ asBytes "|" ++ m.data) hx (by
      rw [hjoin, hxy, asBytes_append, hcons]
      simp only [List.append_assoc])).1
    simpa using congrArg List.length (hxy.symm.trans heq)
  · obtain ⟨x, y, hxy⟩ := List.append_of_mem hbar
    have heq := (hcut t x y (asBytes (severity m) ++ asBytes "|" ++ m.data) ht (by
      rw [hjoin, hxy, asBytes_append, hcons]
      simp only [List.append_assoc])).2.1
    simpa using congrArg List.length (hxy.symm.trans heq)
  · obtain ⟨x, y, hxy⟩ := List.append_of_mem hbar
    have heq := (hcut t (source m) x (asBytes y ++ asBytes "|" ++ m.data) ht (by
      rw [hjoin, hxy, asBytes_append, hcons]
      simp only [List.append_assoc])).2.2
    simpa using congrArg List.length (hxy.symm.trans heq)
  · obtain ⟨d, hd⟩ := hbar
    have heq := (hcut t (source m) (severity m ++ '|' :: s) d ht (by
      rw [hjoin, ← hd, asBytes_append, hcons]
      simp only [List.append_assoc])).2.2
    simpa using congrArg List.length heq

/-! ### The statement -/

/-- **When the automatic key tells an event from every other**, if the hash has no
collisions among the joins. -/
theorem key_distinguishes_iff (crates : Crates) {joins : Set Bytes}
    (hfree : joins.InjOn fun bytes => (crates.sha256 bytes).take 16) {t : Text} {m : NewMessage}
    (ht : '/' ∉ t) (hm : Automatic m) (hjoin : hashed t m ∈ joins) :
    (∀ t' m', '/' ∉ t' → Automatic m' → hashed t' m' ∈ joins →
      idempotencyKey crates t m = idempotencyKey crates t' m' → SameEvent t m t' m') ↔
    Separable t m := by
  constructor
  · intro h
    refine separable_of_sameEvent ht fun t' m' ht' hm' heq => h t' m' ht' hm' (heq ▸ hjoin) ?_
    rw [idempotencyKey_of_automatic hm, idempotencyKey_of_automatic hm', heq]
  · intro h t' m' _ hm' hjoin' hkey
    rw [idempotencyKey_of_automatic hm, idempotencyKey_of_automatic hm', autoKey_eq_iff] at hkey
    exact sameEvent_of_hashed_eq h (hfree hjoin hjoin' hkey)

/-- Two small alarms with different data have different keys: their hashes begin with
different bytes. -/
theorem alarm_distinguished :
    idempotencyKey sampleCrates "alarm" (eventMessage "s" "info" [1]) ≠
      idempotencyKey sampleCrates "alarm" (eventMessage "s" "info" [2]) := by
  have hdiffer : (sampleCrates.sha256 (hashed "alarm" (eventMessage "s" "info" [1]))).take 16 ≠
      (sampleCrates.sha256 (hashed "alarm" (eventMessage "s" "info" [2]))).take 16 := by
    decide +kernel
  have hfree : Set.InjOn (fun bytes => (sampleCrates.sha256 bytes).take 16)
      {hashed "alarm" (eventMessage "s" "info" [1]),
        hashed "alarm" (eventMessage "s" "info" [2])} :=
    Set.injOn_pair.mpr fun heq => absurd heq hdiffer
  have hseparable : Separable "alarm" (eventMessage "s" "info" [1]) := by
    refine ⟨by decide, ?_, ?_, fun s hbar => ?_⟩
    · rw [source_eventMessage]
      decide
    · rw [severity_eventMessage]
      decide
    · have hmem : (0x7c : UInt8) ∈ asBytes s ++ asBytes "|" :=
        List.mem_append_right _ (by decide)
      exact absurd (hbar.subset hmem) (by decide)
  intro hkey
  have hsame := (key_distinguishes_iff sampleCrates hfree (by decide) (automatic_eventMessage _ _ _)
    (by decide)).mpr hseparable "alarm" (eventMessage "s" "info" [2]) (by decide)
    (automatic_eventMessage _ _ _) (by decide) hkey
  exact absurd hsame.data (by decide)

/-- **Two different events with one key**, whatever the hash: a `|` of the source
moves to the severity. -/
theorem keys_collide :
    (∀ crates, idempotencyKey crates "alarm" (eventMessage "a|b" "c" []) =
      idempotencyKey crates "alarm" (eventMessage "a" "b|c" [])) ∧
    Automatic (eventMessage "a|b" "c" []) ∧ Automatic (eventMessage "a" "b|c" []) ∧
    ¬SameEvent "alarm" (eventMessage "a|b" "c" []) "alarm" (eventMessage "a" "b|c" []) := by
  refine ⟨fun crates => ?_, automatic_eventMessage _ _ _, automatic_eventMessage _ _ _, ?_⟩
  · rw [idempotencyKey_of_automatic (automatic_eventMessage _ _ _),
      idempotencyKey_of_automatic (automatic_eventMessage _ _ _)]
    rfl
  · intro h
    have hsource := h.source
    rw [source_eventMessage, source_eventMessage] at hsource
    exact absurd hsource (by decide)

end RelayPubsub.RelayEvents
