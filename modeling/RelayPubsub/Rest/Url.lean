import RelayPubsub.Memory.Elsewhere
import RelayPubsub.Rest.Tenant

/-!
# Requests that create and update resources

A `PUT` or `PATCH` request on the URL of a resource creates or updates a resource
of the name its body says, and of the name in the URL only if the body says none
(`RelayPubsub.Rest.call_of_write`). So it acts on the resource in its URL
exactly when the body names no other (`RelayPubsub.Rest.writes_url_iff`). The
exception is the creation of a snapshot, which does not look at that field.

The name is what counts: the call of such a request changes nothing under another
name (`RelayPubsub.Rest.write_elsewhere`).
-/

namespace RelayPubsub.Rest

open Lib

/-- The name of the body does not differ from the URL, where it is used. -/
def NameFollowsUrl (kind path : Text) (method : Method) (body : Value) : Prop :=
  kind = "snapshots".toList ∧ method = .put ∨
    ∀ name, body.getStr "name" = some name → name = path

/-- The body's name, or the one given, is the one given. -/
theorem nameFromValue_eq_iff {name : Text} {body : Value} :
    nameFromValue name body = name ↔ ∀ n, body.getStr "name" = some n → n = name := by
  unfold nameFromValue
  rcases body.getStr "name" with - | n
  · simp
  · simp

section Write

variable {codecs : Codecs} {project kind leaf : Text} {body : Value} {now : Time} {method : Method}
  {query : Text} {d : Dispatched}

/-- A request that is no `POST` is a request on resources. -/
theorem dispatch_eq_handleResourceRequest {path : Text} (h : method ≠ .post) :
    dispatch codecs path body now method query =
      handleResourceRequest codecs path body now method query := by
  unfold dispatch
  have hfalse : ∀ P : Prop, ¬(method = .post ∧ P) := fun _ hc => h hc.1
  rw [if_neg (hfalse _), if_neg (hfalse _), if_neg (hfalse _), if_neg (hfalse _),
    if_neg (hfalse _), if_neg (hfalse _), if_neg (hfalse _), if_neg (hfalse _),
    if_neg (hfalse _), if_neg (hfalse _), if_neg (hfalse _)]

/-- The segments of the URL of a resource. -/
theorem splitOn_resource (hproject : '/' ∉ project) (hkind : '/' ∉ kind) (hleaf : '/' ∉ leaf) :
    (projectName project ++ '/' :: (kind ++ '/' :: leaf)).splitOn '/' =
      ["projects".toList, project, kind, leaf] := by
  rw [splitOn_below hproject, List.splitOn_append_cons_self_of_not_mem hkind,
    List.splitOn_eq_singleton hleaf]

/-- **The resource a `PUT` or `PATCH` request writes to**; the call is no pull. -/
theorem call_of_write (hproject : '/' ∉ project) (hkind : '/' ∉ kind) (hleaf : '/' ∉ leaf)
    (hmethod : method = .put ∨ method = .patch)
    (h : dispatch codecs (projectName project ++ '/' :: (kind ++ '/' :: leaf)) body now method
      query = .ok d) :
    d.call.target = some (if kind = "snapshots".toList ∧ method = .put then
        projectName project ++ '/' :: (kind ++ '/' :: leaf)
      else nameFromValue (projectName project ++ '/' :: (kind ++ '/' :: leaf)) body) ∧
      ∀ n maxMessages, d.call ≠ .pull n maxMessages := by
  have hpost : method ≠ .post := by rcases hmethod with rfl | rfl <;> decide
  rw [dispatch_eq_handleResourceRequest hpost] at h
  unfold handleResourceRequest at h
  rw [splitOn_resource hproject hkind hleaf] at h
  dsimp only at h
  have hlist : ∀ P : Prop, ¬([leaf] = [] ∧ P) := fun _ hc => List.cons_ne_nil _ _ hc.1
  rw [if_neg (not_not_intro rfl), if_neg (hlist _), if_neg (hlist _), if_neg (hlist _),
    if_neg (hlist _), if_neg fun hc => absurd hc.1 (by simp)] at h
  -- of the four kinds of resources, a snapshot is created under the name in the URL
  have hother : ∀ kind : Text, kind ≠ "snapshots".toList →
      ¬(kind = "snapshots".toList ∧ method = .put) := fun _ hne hc => hne hc.1
  split at h
  · rename_i hc
    obtain ⟨-, rfl⟩ := hc
    rw [if_neg (hother _ (by decide +kernel))]
    rcases hmethod with rfl | rfl
    · rw [← Except.ok.inj h]
      exact ⟨rfl, fun _ _ hpull => by cases hpull⟩
    · rw [← Except.ok.inj h]
      exact ⟨rfl, fun _ _ hpull => by cases hpull⟩
  split at h
  · rename_i hc
    obtain ⟨-, rfl⟩ := hc
    rw [if_neg (hother _ (by decide +kernel))]
    unfold subscriptionSpecFromValue at h
    rcases hmethod with rfl | rfl <;> dsimp only at h <;> split at h
    · cases h
    · rw [← Except.ok.inj h]
      exact ⟨rfl, fun _ _ hpull => by cases hpull⟩
    · cases h
    · rw [← Except.ok.inj h]
      exact ⟨rfl, fun _ _ hpull => by cases hpull⟩
  split at h
  · rename_i hc
    obtain ⟨-, rfl⟩ := hc
    rcases hmethod with rfl | rfl
    · rw [if_pos ⟨rfl, rfl⟩]
      dsimp only at h
      split at h
      · cases h
      · rw [← Except.ok.inj h]
        exact ⟨rfl, fun _ _ hpull => by cases hpull⟩
    · rw [if_neg fun hc => absurd hc.2 (by decide), ← Except.ok.inj h]
      exact ⟨rfl, fun _ _ hpull => by cases hpull⟩
  split at h
  · rename_i hc
    obtain ⟨-, rfl⟩ := hc
    rw [if_neg (hother _ (by decide +kernel))]
    rcases hmethod with rfl | rfl
    · rw [← Except.ok.inj h]
      exact ⟨rfl, fun _ _ hpull => by cases hpull⟩
    · cases h
  · cases h

/-- **A `PUT` or `PATCH` request acts on the resource in its URL, and is
authorized for its project, exactly if neither the body's name nor the resource
for authorization differs from the URL.** -/
theorem writes_url_iff (hproject : '/' ∉ project) (hkind : '/' ∉ kind) (hleaf : '/' ∉ leaf)
    (hmethod : method = .put ∨ method = .patch)
    (h : dispatch codecs (projectName project ++ '/' :: (kind ++ '/' :: leaf)) body now method
      query = .ok d) :
    (d.call.target = some (projectName project ++ '/' :: (kind ++ '/' :: leaf)) ∧
        projectOf (authResourceForPath (projectName project ++ '/' :: (kind ++ '/' :: leaf)) body) =
          projectOf (projectName project ++ '/' :: (kind ++ '/' :: leaf))) ↔
      NameFollowsUrl kind (projectName project ++ '/' :: (kind ++ '/' :: leaf)) method body ∧
        AuthFollowsPath project (kind ++ '/' :: leaf) body := by
  rw [projectOf_below hproject, projectOf_authResource_iff hproject,
    (call_of_write hproject hkind hleaf hmethod h).1]
  refine and_congr_left fun _ => ?_
  unfold NameFollowsUrl
  rw [Option.some.injEq]
  by_cases hc : kind = "snapshots".toList ∧ method = .put
  · rw [if_pos hc]
    exact iff_of_true rfl (Or.inl hc)
  · rw [if_neg hc, nameFromValue_eq_iff, or_iff_right hc]

/-- The call of a `PUT` or `PATCH` request changes nothing under a name that is
neither its URL nor the name in its body. -/
theorem write_elsewhere (hproject : '/' ∉ project) (hkind : '/' ∉ kind) (hleaf : '/' ∉ leaf)
    (hmethod : method = .put ∨ method = .patch)
    (h : dispatch codecs (projectName project ++ '/' :: (kind ++ '/' :: leaf)) body now method
      query = .ok d) {name : Text}
    (hurl : name ≠ projectName project ++ '/' :: (kind ++ '/' :: leaf))
    (hbody : body.getStr "name" ≠ some name) {env : Memory.Env} {st : Memory.State} :
    Memory.SameAt name st (Memory.exec codecs.serde st ⟨d.call, env⟩) := by
  obtain ⟨htarget, hpull⟩ := call_of_write hproject hkind hleaf hmethod h
  refine Memory.exec_sameAt ?_ hpull
  · rw [htarget]
    split
    · exact fun heq => hurl (Option.some.inj heq).symm
    · unfold nameFromValue
      rcases hn : body.getStr "name" with - | n
      · exact fun heq => hurl (Option.some.inj heq).symm
      · exact fun heq => hbody (hn.trans heq)

end Write

/-- The creation of a topic whose body names no other. -/
theorem create_writes_url :
    ∃ d, dispatch sampleCodecs (projectName "p" ++ '/' :: ("topics".toList ++ '/' :: "t".toList))
        (.object []) 0 .put [] = .ok d ∧
      d.call.target = some (projectName "p" ++ '/' :: ("topics".toList ++ '/' :: "t".toList)) := by
  obtain ⟨d, hd⟩ := exists_dispatched (e := dispatch sampleCodecs
    (projectName "p" ++ '/' :: ("topics".toList ++ '/' :: "t".toList)) (.object []) 0 .put [])
    (by decide +kernel)
  refine ⟨d, hd, ((writes_url_iff (by decide +kernel) (by decide +kernel) (by decide +kernel)
    (Or.inl rfl) hd).mpr ⟨Or.inr ?_, ?_⟩).1⟩
  · intro name h
    cases h
  · unfold AuthFollowsPath
    rw [if_neg (by decide +kernel)]
    exact Or.inr (Or.inr (Or.inr (Or.inr fun name h => by cases h)))

/-- A caller allowed in one project only creates a topic of another. -/
theorem create_writes_elsewhere :
    ∃ d, dispatch sampleCodecs (projectName "a" ++ '/' :: ("topics".toList ++ '/' :: "t".toList))
        (.object [("name", .string "projects/b/topics/t")]) 0 .put [] = .ok d ∧
      authorizeResource ⟨"caller", [projectName "a"]⟩
        (authResourceForPath (projectName "a" ++ '/' :: ("topics".toList ++ '/' :: "t".toList))
          (.object [("name", .string "projects/b/topics/t")])) = .ok () ∧
      d.call.target = some "projects/b/topics/t" ∧
      projectOf "projects/b/topics/t" = some (projectName "b") := by
  obtain ⟨d, hd⟩ := exists_dispatched (e := dispatch sampleCodecs
    (projectName "a" ++ '/' :: ("topics".toList ++ '/' :: "t".toList))
    (.object [("name", .string "projects/b/topics/t")]) 0 .put []) (by decide +kernel)
  refine ⟨d, hd, ?_, ?_, ?_⟩
  · decide +kernel
  · rw [(call_of_write (by decide +kernel) (by decide +kernel) (by decide +kernel) (Or.inl rfl)
      hd).1]
    decide +kernel
  · decide +kernel

end RelayPubsub.Rest
