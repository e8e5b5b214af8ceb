import JsonRpcBridge.Json

/-!
# References inside a JSON value

A JSON pointer written as a URI fragment (`#/a/b`) is percent-decoded, split at its slashes, each
token unescaped, and followed from the root: by name through objects, by index through arrays.

`resolve_plain`: tokens that need no escaping are followed as they stand. `RefsIn`: wherever an
object of a value has the member `$ref`, that is its only member, a string the predicate accepts.
-/

namespace JsonRpcBridge

/-! ## Pointers

Decoding and unescaping leave plain tokens alone, so that a pointer made of those is followed
name by name. -/

/-- The value of a hexadecimal digit. -/
def hexValue (c : UInt8) : Option UInt8 :=
  if 0x30 ≤ c ∧ c ≤ 0x39 then some (c - 0x30)
  else if 0x41 ≤ c ∧ c ≤ 0x46 then some (c - 0x37)
  else if 0x61 ≤ c ∧ c ≤ 0x66 then some (c - 0x57)
  else none

/-- The bytes of a URI fragment: `%41` is `A`. -/
def percentDecode : Bytes → Bytes
  | 0x25 :: a :: b :: rest =>
    match hexValue a, hexValue b with
    | some x, some y => (16 * x + y) :: percentDecode rest
    | _, _ => 0x25 :: percentDecode (a :: b :: rest)
  | c :: rest => c :: percentDecode rest
  | [] => []

/-- A token of a pointer: `~1` is a slash and `~0` a tilde. -/
def unescape : Bytes → Bytes
  | 0x7E :: 0x31 :: rest => 0x2F :: unescape rest
  | 0x7E :: 0x30 :: rest => 0x7E :: unescape rest
  | c :: rest => c :: unescape rest
  | [] => []

/-- A token as an array index: digits, without leading zeros. -/
def arrayIndex (token : Bytes) : Option Nat :=
  if token.all (fun c => 0x30 ≤ c && c ≤ 0x39) && token != [] &&
      (token.length == 1 || token.head? != some 0x30) then
    some (token.foldl (fun n c => 10 * n + (c.toNat - 0x30)) 0)
  else none

namespace Json

/-- One step of a pointer. -/
def child (token : Bytes) : Json → Option Json
  | .obj ms => ms.lookup token
  | .arr xs => (arrayIndex token).bind fun i => xs[i]?
  | _ => none

def follow (doc : Json) (tokens : List Bytes) : Option Json :=
  tokens.foldlM (fun j token => j.child token) doc

/-- What a pointer points to. -/
def evaluate (doc : Json) : Bytes → Option Json
  | [] => some doc
  | 0x2F :: rest => doc.follow ((rest.splitOn 0x2F).map unescape)
  | _ => none

/-- What a reference into the same document refers to. -/
def resolve (doc : Json) : Bytes → Option Json
  | 0x23 :: fragment => doc.evaluate (percentDecode fragment)
  | _ => none

end Json

/-! ### Plain tokens

A token of letters, digits and dots needs neither escape. The references of the documents are
made of such tokens. -/

/-- A byte that stands for itself in a token. -/
def plainByte (c : UInt8) : Bool := c != 0x25 && c != 0x2F && c != 0x7E

theorem percentDecode_of_plain {s : Bytes} (h : ∀ c ∈ s, c ≠ 0x25) : percentDecode s = s := by
  fun_induction percentDecode s with
  | case1 => exact absurd rfl (h _ (List.mem_cons_self ..))
  | case2 => exact absurd rfl (h _ (List.mem_cons_self ..))
  | case3 c rest _ ih => rw [ih fun x hx => h x (List.mem_cons_of_mem _ hx)]
  | case4 => rfl

theorem unescape_of_plain {s : Bytes} (h : ∀ c ∈ s, c ≠ 0x7E) : unescape s = s := by
  fun_induction unescape s with
  | case1 => exact absurd rfl (h _ (List.mem_cons_self ..))
  | case2 => exact absurd rfl (h _ (List.mem_cons_self ..))
  | case3 c rest _ _ ih => rw [ih fun x hx => h x (List.mem_cons_of_mem _ hx)]
  | case4 => rfl

theorem mem_intercalate {x c : UInt8} {tokens : List Bytes} (h : c ∈ [x].intercalate tokens) :
    c = x ∨ ∃ t ∈ tokens, c ∈ t := by
  induction tokens with
  | nil => simp at h
  | cons t tokens ih =>
      by_cases hne : tokens = []
      · subst hne
        exact Or.inr ⟨t, List.mem_cons_self .., by simpa using h⟩
      · rw [List.intercalate_cons_of_ne_nil hne] at h
        rcases List.mem_append.mp h with h | h
        · rcases List.mem_append.mp h with h | h
          · exact Or.inr ⟨t, List.mem_cons_self .., h⟩
          · exact Or.inl (List.mem_singleton.mp h)
        · rcases ih h with h | ⟨t', ht', h⟩
          · exact Or.inl h
          · exact Or.inr ⟨t', List.mem_cons_of_mem _ ht', h⟩

/-- A reference with plain tokens follows them. -/
theorem resolve_plain (doc : Json) {tokens : List Bytes} (hne : tokens ≠ [])
    (h : ∀ t ∈ tokens, ∀ c ∈ t, plainByte c = true) :
    doc.resolve (0x23 :: 0x2F :: [0x2F].intercalate tokens) = doc.follow tokens := by
  have hbytes : ∀ t ∈ tokens, ∀ c ∈ t, c ≠ 0x25 ∧ c ≠ 0x2F ∧ c ≠ 0x7E := by
    intro t ht c hc
    simpa [plainByte, and_assoc] using h t ht c hc
  have hdecode : percentDecode ([0x2F].intercalate tokens) = [0x2F].intercalate tokens := by
    apply percentDecode_of_plain
    intro c hc
    rcases mem_intercalate hc with rfl | ⟨t, ht, hc⟩
    · decide
    · exact (hbytes t ht c hc).1
  have htokens : tokens.map unescape = tokens := by
    refine (List.map_congr_left fun t ht => ?_).trans (List.map_id tokens)
    exact unescape_of_plain fun c hc => (hbytes t ht c hc).2.2
  show doc.evaluate (0x2F :: percentDecode _) = _
  rw [hdecode]
  show doc.follow ((([0x2F].intercalate tokens).splitOn 0x2F).map unescape) = _
  rw [List.splitOn_intercalate _ (fun t ht hc => (hbytes t ht _ hc).2.1 rfl) hne, htokens]

/-! ## Where a value says `$ref`

`RefsIn` is proved of a value from its parts. `Bare` is for those that are put into another
object, and must not turn it into a reference. -/

def kRef : Bytes := str "$ref"

@[simp] theorem str_eq_ref {s : String} : str s = kRef ↔ s = "$ref" := str_inj

namespace Json

/-- `j` occurs in a value: it is the value, or occurs in an element or under a member. -/
inductive Within (j : Json) : Json → Prop where
  | self : Within j j
  | element {xs : List Json} {x : Json} : x ∈ xs → Within j x → Within j (.arr xs)
  | member {ms : List (Bytes × Json)} {k : Bytes} {v : Json} :
      (k, v) ∈ ms → Within j v → Within j (.obj ms)

/-- Every member `$ref` in `j` is alone in its object and a string that `ok` accepts. -/
def RefsIn (ok : Bytes → Prop) (j : Json) : Prop :=
  ∀ ms v, Within (.obj ms) j → (kRef, v) ∈ ms → ∃ p, ms = [(kRef, .str p)] ∧ v = .str p ∧ ok p

/-- `RefsIn`, and `j` itself is no reference. -/
structure Bare (ok : Bytes → Prop) (j : Json) : Prop where
  refs : j.RefsIn ok
  noRef : ∀ ms, j = .obj ms → ∀ kv ∈ ms, kv.1 ≠ kRef

variable {ok : Bytes → Prop} {j v : Json} {k : Bytes}

/-! ### Values without references

Scalars, and arrays and objects of sound values. A value that is put under a new key stays sound
as long as that key is not `$ref`. -/

theorem bare_null : Bare ok .null := ⟨by rintro _ _ ⟨⟩, by rintro _ ⟨⟩⟩
theorem bare_bool (b : Bool) : Bare ok (.bool b) := ⟨by rintro _ _ ⟨⟩, by rintro _ ⟨⟩⟩
theorem bare_int (n : Int) : Bare ok (.int n) := ⟨by rintro _ _ ⟨⟩, by rintro _ ⟨⟩⟩
theorem bare_uint (n : Nat) : Bare ok (.uint n) := ⟨by rintro _ _ ⟨⟩, by rintro _ ⟨⟩⟩
theorem bare_str (s : Bytes) : Bare ok (.str s) := ⟨by rintro _ _ ⟨⟩, by rintro _ ⟨⟩⟩

@[simp] theorem refsIn_null : RefsIn ok .null := bare_null.refs
@[simp] theorem refsIn_bool (b : Bool) : RefsIn ok (.bool b) := (bare_bool b).refs
@[simp] theorem refsIn_int (n : Int) : RefsIn ok (.int n) := (bare_int n).refs
@[simp] theorem refsIn_uint (n : Nat) : RefsIn ok (.uint n) := (bare_uint n).refs
@[simp] theorem refsIn_str (s : Bytes) : RefsIn ok (.str s) := (bare_str s).refs

@[simp] theorem refsIn_arr_iff {xs : List Json} : RefsIn ok (.arr xs) ↔ ∀ x ∈ xs, x.RefsIn ok := by
  constructor
  · intro h x hx ms v hin
    exact h ms v (.element hx hin)
  · rintro h ms v ⟨⟩ hv
    rename_i x hin hx
    exact h x hx ms v hin hv

theorem bare_arr {xs : List Json} (h : ∀ x ∈ xs, x.RefsIn ok) : Bare ok (.arr xs) :=
  ⟨refsIn_arr_iff.mpr h, by rintro _ ⟨⟩⟩

/-- An object without the member is sound when its members are. -/
theorem bare_obj {ms : List (Bytes × Json)} (h : ∀ kv ∈ ms, kv.1 ≠ kRef ∧ kv.2.RefsIn ok) :
    Bare ok (.obj ms) := by
  refine ⟨?_, ?_⟩
  · intro ms' v hin hv
    cases hin with
    | self => exact absurd rfl (h _ hv).1
    | member hkv hin => exact (h _ hkv).2 ms' v hin hv
  · intro ms' hms kv hkv
    cases hms
    exact (h kv hkv).1

theorem Bare.member {ms : List (Bytes × Json)} (h : Bare ok (.obj ms)) :
    ∀ kv ∈ ms, kv.1 ≠ kRef ∧ kv.2.RefsIn ok :=
  fun kv hkv => ⟨h.noRef ms rfl kv hkv, fun ms' v hin => h.refs ms' v (.member hkv hin)⟩

theorem bare_object {kvs : List (Bytes × Json)} (h : ∀ kv ∈ kvs, kv.1 ≠ kRef ∧ kv.2.RefsIn ok) :
    Bare ok (object kvs) := by
  obtain ⟨ms, hms, hmembers⟩ := exists_object h
  rw [hms]
  exact bare_obj hmembers

theorem Bare.set (hj : Bare ok j) (hk : k ≠ kRef) (hv : v.RefsIn ok) : Bare ok (j.set k v) := by
  cases j with
  | obj ms =>
      refine bare_obj fun kv hkv => ?_
      rcases OrderedMap.mem_assign hkv with rfl | hkv
      · exact ⟨hk, hv⟩
      · exact hj.member kv hkv
  | null =>
      refine bare_obj fun kv hkv => ?_
      rw [List.mem_singleton.mp hkv]
      exact ⟨hk, hv⟩
  | _ => exact hj

theorem Bare.find? (hj : Bare ok j) (h : j.find? k = some v) : v.RefsIn ok := by
  cases j with
  | obj ms =>
      have h : ms.lookup k = some v := h
      exact (hj.member _ (List.mem_of_lookup h)).2
  | _ => cases h

/-! ### Deciding it

For the constants of the documents it is enough to look through them once. -/

mutual
/-- No object in `j` has the member `$ref`. -/
def noRefs : Json → Bool
  | .arr xs => noRefsAll xs
  | .obj ms => noRefsMembers ms
  | _ => true
def noRefsAll : List Json → Bool
  | [] => true
  | x :: xs => noRefs x && noRefsAll xs
def noRefsMembers : List (Bytes × Json) → Bool
  | [] => true
  | (k, v) :: ms => k != kRef && noRefs v && noRefsMembers ms
end

mutual
theorem bare_of_noRefs : ∀ {j : Json}, j.noRefs = true → Bare ok j
  | .arr xs, h => bare_arr (refsIn_of_noRefsAll h)
  | .obj ms, h => bare_obj (refsIn_of_noRefsMembers h)
  | .null, _ => bare_null
  | .bool b, _ => bare_bool b
  | .int n, _ => bare_int n
  | .uint n, _ => bare_uint n
  | .float _, _ => ⟨by rintro _ _ ⟨⟩, by rintro _ ⟨⟩⟩
  | .str s, _ => bare_str s
theorem refsIn_of_noRefsAll : ∀ {xs : List Json}, noRefsAll xs = true → ∀ x ∈ xs, x.RefsIn ok
  | [], _ => by simp
  | x :: xs, h => by
    obtain ⟨hhead, htail⟩ := (Bool.and_eq_true _ _).mp h
    have hx := (bare_of_noRefs hhead).refs
    have hxs := refsIn_of_noRefsAll htail
    exact List.forall_mem_cons.mpr ⟨hx, hxs⟩
theorem refsIn_of_noRefsMembers : ∀ {ms : List (Bytes × Json)}, noRefsMembers ms = true →
    ∀ kv ∈ ms, kv.1 ≠ kRef ∧ kv.2.RefsIn ok
  | [], _ => by simp
  | (k, v) :: ms, h => by
    obtain ⟨hhead, htail⟩ := (Bool.and_eq_true _ _).mp h
    obtain ⟨hkey, hvalue⟩ := (Bool.and_eq_true _ _).mp hhead
    have hv := (bare_of_noRefs hvalue).refs
    have hms := refsIn_of_noRefsMembers htail
    exact List.forall_mem_cons.mpr ⟨⟨by simpa using hkey, hv⟩, hms⟩
end

theorem refsIn_of_noRefs (h : j.noRefs = true) : j.RefsIn ok := (bare_of_noRefs h).refs

/-- The object that is a reference. -/
theorem refsIn_ref {p : Bytes} (h : ok p) : RefsIn ok (object [(kRef, .str p)]) := by
  intro ms v hin hv
  have hin : Within (.obj ms) (.obj [(kRef, .str p)]) := hin
  cases hin with
  | self =>
      have hv := List.mem_singleton.mp hv
      exact ⟨p, rfl, congrArg Prod.snd hv, h⟩
  | member hkv hin =>
      cases List.mem_singleton.mp hkv
      cases hin

end Json

end JsonRpcBridge
