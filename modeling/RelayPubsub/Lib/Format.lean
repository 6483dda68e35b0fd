import Mathlib.Data.Finset.Sort
import Mathlib.Data.List.Forall2
import Std.Data.ExtTreeMap

/-!
# Document formats

A format says how the values of a type are written in a document, and how a document is
read: there may be several documents of one value – the entries of a map may stand in any
order, a field may be left out that holds its default – and reading is required to give
the value back from any of them (`Lib.Format`). That reading inverts writing is thus part
of what a format is, and carried through by the ways formats are put together:

| format | documents |
|---|---|
| `Lib.Format.through` | the same, wrapped |
| `Lib.Format.map` | the same, of another type |
| `Lib.Format.list` | lists of documents |
| `Lib.Format.set` | lists of the elements, in any order |
| `Lib.Format.entries` | lists of keys with documents, in any order |

A record is a list of fields under keys (`Lib.Record`), put together from single fields, each
of which is there once, or left out where it may be. As it looks at the entries under its
keys alone, the fields may stand in any order, and others may be there.
-/

namespace Lib

/-- **A format of the values of `α` as documents in `V`.** -/
structure Format (V α : Type*) where
  /-- The values that can be written. -/
  Fits : α → Prop
  /-- A document of a value. -/
  encode : α → V
  /-- The documents of a value. -/
  Represents : α → V → Prop
  decode : V → Option α
  represents_encode : ∀ {a}, Fits a → Represents a (encode a)
  decode_eq : ∀ {a v}, Represents a v → decode v = some a

namespace Format

variable {V W K κ α β : Type*}

/-- The values whose one document is read back. -/
def ofInverse (encode : α → V) (decode : V → Option α) : Format V α where
  Fits a := decode (encode a) = some a
  encode := encode
  Represents a v := v = encode a ∧ decode v = some a
  decode := decode
  represents_encode h := ⟨rfl, h⟩
  decode_eq h := h.2

/-- Documents that are wrapped. -/
def through (F : Format W α) (wrap : W → V) (unwrap : V → Option W)
    (h : ∀ w, unwrap (wrap w) = some w) : Format V α where
  Fits := F.Fits
  encode a := wrap (F.encode a)
  Represents a v := ∃ w, v = wrap w ∧ F.Represents a w
  decode v := (unwrap v).bind F.decode
  represents_encode ha := ⟨_, rfl, F.represents_encode ha⟩
  decode_eq := by
    rintro a v ⟨w, rfl, hw⟩
    rw [h, Option.bind_some, F.decode_eq hw]

/-- The values of another type. -/
def map (F : Format V α) (f : α → β) (g : β → α) (h : ∀ b, f (g b) = b) : Format V β where
  Fits b := F.Fits (g b)
  encode b := F.encode (g b)
  Represents b v := F.Represents (g b) v
  decode v := (F.decode v).map f
  represents_encode hb := F.represents_encode hb
  decode_eq := by
    intro b v hv
    rw [F.decode_eq hv, Option.map_some, h]

/-! ### Lists, sets and maps -/

/-- Reading the documents of a list of values, one by one. -/
theorem mapM_decode (F : Format V α) {l : List α} {vs : List V}
    (h : List.Forall₂ F.Represents l vs) : vs.mapM F.decode = some l := by
  induction h with
  | nil => rfl
  | cons ha _ ih => rw [List.mapM_cons, F.decode_eq ha, ih]; rfl

/-- The documents of a list of values, one by one. -/
theorem forall₂_encode (F : Format V α) {l : List α} (h : ∀ a ∈ l, F.Fits a) :
    List.Forall₂ F.Represents l (l.map F.encode) := by
  rw [List.forall₂_map_right_iff, List.forall₂_same]
  exact fun a ha => F.represents_encode (h a ha)

def list (F : Format V α) : Format (List V) (List α) where
  Fits l := ∀ a ∈ l, F.Fits a
  encode l := l.map F.encode
  Represents := List.Forall₂ F.Represents
  decode vs := vs.mapM F.decode
  represents_encode := F.forall₂_encode
  decode_eq := F.mapM_decode

/-- A set of numbers, in any order. -/
def set (F : Format V ℕ) : Format (List V) (Finset ℕ) where
  Fits s := ∀ n ∈ s, F.Fits n
  encode s := (s.sort (· ≤ ·)).map F.encode
  Represents s vs := ∃ l : List ℕ, l.toFinset = s ∧ List.Forall₂ F.Represents l vs
  decode vs := (vs.mapM F.decode).map List.toFinset
  represents_encode {s} h :=
    ⟨s.sort (· ≤ ·), Finset.sort_toFinset s (· ≤ ·),
      F.forall₂_encode fun n hn => h n ((Finset.mem_sort (· ≤ ·)).mp hn)⟩
  decode_eq := by
    rintro s vs ⟨l, rfl, hl⟩
    rw [F.mapM_decode hl, Option.map_some]

/-- An entry: a key, and the document of a value. -/
def entry (K : Format κ α) (F : Format V β) : Format (κ × V) (α × β) where
  Fits e := K.Fits e.1 ∧ F.Fits e.2
  encode e := (K.encode e.1, F.encode e.2)
  Represents e v := K.Represents e.1 v.1 ∧ F.Represents e.2 v.2
  decode v := (K.decode v.1).bind fun a => (F.decode v.2).map fun b => (a, b)
  represents_encode h := ⟨K.represents_encode h.1, F.represents_encode h.2⟩
  decode_eq := by
    rintro ⟨a, b⟩ ⟨k, v⟩ ⟨ha, hb⟩
    rw [K.decode_eq ha, Option.bind_some, F.decode_eq hb, Option.map_some]

section Entries

variable [DecidableEq K] {cmp : K → K → Ordering} [Std.TransCmp cmp] [Std.LawfulEqCmp cmp]

/-- **A map is built from its entries in any order.** -/
theorem ofList_of_perm {m : Std.ExtTreeMap K β cmp} {l : List (K × β)} (h : l.Perm m.toList) :
    Std.ExtTreeMap.ofList l cmp = m := by
  have hdistinct : l.Pairwise fun a b => ¬cmp a.1 b.1 = .eq :=
    h.symm.pairwise Std.ExtTreeMap.distinct_keys_toList fun {a b} hab heq =>
      hab (Std.OrientedCmp.eq_symm heq)
  refine Std.ExtTreeMap.ext_getElem? fun k => ?_
  rcases hk : m[k]? with - | v
  · refine Std.ExtTreeMap.getElem?_ofList_of_contains_eq_false ?_
    rw [← Bool.not_eq_true, List.contains_iff_mem, List.mem_map]
    rintro ⟨e, he, rfl⟩
    have hmem := Std.ExtTreeMap.mem_toList_iff_getElem?_eq_some.mp (h.mem_iff.mp he)
    rw [hk] at hmem
    cases hmem
  · refine Std.ExtTreeMap.getElem?_ofList_of_mem Std.ReflCmp.compare_self hdistinct ?_
    exact h.mem_iff.mpr (Std.ExtTreeMap.mem_toList_iff_getElem?_eq_some.mpr hk)

variable (cmp) in
/-- The entries of a map, in any order. -/
def entries (G : Format κ K) (F : Format V β) :
    Format (List (κ × V)) (Std.ExtTreeMap K β cmp) where
  Fits m := ∀ e ∈ m.toList, (entry G F).Fits e
  encode m := m.toList.map (entry G F).encode
  Represents m vs := ∃ l, l.Perm m.toList ∧ List.Forall₂ (entry G F).Represents l vs
  decode vs := (vs.mapM (entry G F).decode).map (Std.ExtTreeMap.ofList · cmp)
  represents_encode {m} h := ⟨m.toList, .refl _, (entry G F).forall₂_encode h⟩
  decode_eq := by
    rintro m vs ⟨l, hl, hvs⟩
    rw [(entry G F).mapM_decode hvs, Option.map_some, ofList_of_perm hl]

end Entries

end Format

/-! ### Records -/

section Fields

variable {K V : Type*} [DecidableEq K]

/-- The documents under a key. -/
def under (key : K) (l : List (K × V)) : List V := (l.filter fun e => e.1 = key).map Prod.snd

variable {key : K} {l l' : List (K × V)}

theorem under_append : under key (l ++ l') = under key l ++ under key l' := by
  unfold under
  rw [List.filter_append, List.map_append]

theorem under_singleton (v : V) : under key [(key, v)] = [v] := by
  unfold under
  rw [List.filter_singleton, decide_eq_true rfl]
  rfl

theorem under_eq_nil (h : ∀ e ∈ l, e.1 ≠ key) : under key l = [] := by
  unfold under
  rw [List.map_eq_nil_iff, List.filter_eq_nil_iff]
  exact fun e he => by simpa using h e he

end Fields

/-- **A record as a list of fields under `keys`**: what it says of a list depends on the
entries under these keys. -/
structure Record {K : Type*} [DecidableEq K] (V : Type*) (keys : List K) (α : Type*) extends
    Format (List (K × V)) α where
  encode_keys : ∀ a, ∀ e ∈ encode a, e.1 ∈ keys
  frame : ∀ {a l l'}, (∀ k ∈ keys, under k l' = under k l) → Represents a l → Represents a l'

namespace Record

variable {K V α β : Type*} [DecidableEq K] {ks ls : List K}

/-- The document of a field that must be there, once. -/
def field (key : K) (F : Format V α) : Record V [key] α where
  Fits := F.Fits
  encode a := [(key, F.encode a)]
  Represents a l := ∃ v, under key l = [v] ∧ F.Represents a v
  decode l :=
    match under key l with
    | [v] => F.decode v
    | _ => none
  represents_encode h := ⟨_, under_singleton _, F.represents_encode h⟩
  decode_eq := by
    rintro a l ⟨v, hv, ha⟩
    rw [hv]
    exact F.decode_eq ha
  encode_keys a e he := by
    rw [List.mem_singleton.mp he]
    exact List.mem_singleton.mpr rfl
  frame := by
    rintro a l l' h ⟨v, hv, ha⟩
    exact ⟨v, (h key (List.mem_singleton.mpr rfl)).trans hv, ha⟩

/-- The document of a field that may be left out when it holds its default. -/
def fieldOr (key : K) (dflt : α) (F : Format V α) : Record V [key] α where
  Fits := F.Fits
  encode a := [(key, F.encode a)]
  Represents a l := (∃ v, under key l = [v] ∧ F.Represents a v) ∨ under key l = [] ∧ a = dflt
  decode l :=
    match under key l with
    | [] => some dflt
    | [v] => F.decode v
    | _ => none
  represents_encode h := Or.inl ⟨_, under_singleton _, F.represents_encode h⟩
  decode_eq := by
    rintro a l (⟨v, hv, ha⟩ | ⟨hnil, rfl⟩)
    · rw [hv]
      exact F.decode_eq ha
    · rw [hnil]
  encode_keys a e he := by
    rw [List.mem_singleton.mp he]
    exact List.mem_singleton.mpr rfl
  frame := by
    rintro a l l' h ha
    rwa [h key (List.mem_singleton.mpr rfl)]

/-- **The fields of two records that share no key.** -/
def prod (R : Record V ks α) (S : Record V ls β) (h : ∀ k ∈ ks, k ∉ ls := by decide +kernel) :
    Record V (ks ++ ls) (α × β) where
  Fits x := R.Fits x.1 ∧ S.Fits x.2
  encode x := R.encode x.1 ++ S.encode x.2
  Represents x l := R.Represents x.1 l ∧ S.Represents x.2 l
  decode l := (R.decode l).bind fun a => (S.decode l).map fun b => (a, b)
  represents_encode := by
    rintro ⟨a, b⟩ ⟨ha, hb⟩
    refine ⟨R.frame (fun k hk => ?_) (R.represents_encode ha),
      S.frame (fun k hk => ?_) (S.represents_encode hb)⟩
    · rw [under_append, under_eq_nil (l := S.encode b), List.append_nil]
      rintro e he rfl
      exact h _ hk (S.encode_keys b e he)
    · rw [under_append, under_eq_nil (l := R.encode a), List.nil_append]
      rintro e he rfl
      exact h _ (R.encode_keys a e he) hk
  decode_eq := by
    rintro ⟨a, b⟩ l ⟨ha, hb⟩
    rw [R.decode_eq ha, Option.bind_some, S.decode_eq hb, Option.map_some]
  encode_keys x e he := by
    rcases List.mem_append.mp he with he | he
    · exact List.mem_append_left _ (R.encode_keys _ e he)
    · exact List.mem_append_right _ (S.encode_keys _ e he)
  frame := by
    rintro x l l' hl ⟨ha, hb⟩
    exact ⟨R.frame (fun k hk => hl k (List.mem_append_left _ hk)) ha,
      S.frame (fun k hk => hl k (List.mem_append_right _ hk)) hb⟩

end Record

end Lib
