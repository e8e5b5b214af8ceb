import JsonRpcBridge.Bytes

/-!
# JSON values

`nlohmann::json` as the bridge uses it: the value type, its accessors with the exceptions they
raise, and how an object is put together. The library itself is not part of the repository. What
the bridge takes from it beyond the value type is the parameter `Nlohmann`: the parser and the text
of a dump.

`Json.Clean` is what the strict serialiser demands before it writes a value: every string and every
key is well-formed UTF-8.
-/

namespace JsonRpcBridge

/-- A `nlohmann::json`. A parser reads a non-negative integer as `uint` and a negative one as
`int`; a `float` keeps its IEEE bits. Members are in key order, each key once. -/
inductive Json where
  | null
  | bool (b : Bool)
  | int (n : Int)
  | uint (n : Nat)
  | float (bits : UInt64)
  | str (s : Bytes)
  | arr (xs : List Json)
  | obj (members : List (Bytes × Json))
  deriving Inhabited

/-- The exceptions the bridge's accessors can raise. -/
inductive JsonError where
  | valueOnNonObject   -- type_error.306
  | notConvertible     -- type_error.302
  | noMember           -- type_error.305, and `operator[]` of a const object without the key
  | invalidUtf8        -- type_error.316
  deriving DecidableEq, Repr

/-! ## Computations that may raise

An `Except` that has returned is taken apart step by step, without unfolding the bind. `Quiet` is
the same from the other side: no step of it raises. -/

theorem of_bind_eq_ok {ε α β : Type} {x : Except ε α} {f : α → Except ε β} {b : β}
    (h : (x >>= f) = .ok b) : ∃ a, x = .ok a ∧ f a = .ok b := by
  cases x with
  | ok a => exact ⟨a, rfl, h⟩
  | error e => cases h

theorem of_map_eq_ok {ε α β : Type} {x : Except ε α} {f : α → β} {b : β}
    (h : x.map f = .ok b) : ∃ a, x = .ok a ∧ f a = b := by
  cases x with
  | ok a => exact ⟨a, rfl, Except.ok.inj h⟩
  | error e => cases h

/-- The computation raises nothing. -/
def Quiet {α : Type} (x : Except JsonError α) : Prop := ∃ a, x = .ok a

section Quiet
variable {α β : Type} {x y : Except JsonError α}

theorem quiet_pure (a : α) : Quiet (pure a) := ⟨a, rfl⟩

theorem quiet_bind {f : α → Except JsonError β} (hx : Quiet x)
    (hf : ∀ a, x = .ok a → Quiet (f a)) : Quiet (x >>= f) := by
  obtain ⟨a, rfl⟩ := hx
  exact hf a rfl

theorem quiet_of_bind {f : α → Except JsonError β} (h : Quiet (x >>= f)) :
    ∃ a, x = .ok a ∧ Quiet (f a) := by
  obtain ⟨b, hb⟩ := h
  obtain ⟨a, ha, hfa⟩ := of_bind_eq_ok hb
  exact ⟨a, ha, b, hfa⟩

theorem quiet_ite {c : Prop} [Decidable c] (hx : c → Quiet x) (hy : ¬c → Quiet y) :
    Quiet (if c then x else y) := by
  by_cases hc : c
  · rw [if_pos hc]
    exact hx hc
  · rw [if_neg hc]
    exact hy hc

end Quiet

namespace Json

/-! ## Accessors

An accessor raises on a value that it was not made for. The lemmas say which check before it
rules that out. -/

def isNull : Json → Bool
  | .null => true
  | _ => false

def isObject : Json → Bool
  | .obj _ => true
  | _ => false

def isArray : Json → Bool
  | .arr _ => true
  | _ => false

def isString : Json → Bool
  | .str _ => true
  | _ => false

def isNumber : Json → Bool
  | .int _ | .uint _ | .float _ => true
  | _ => false

/-- The elements of an array, or the values of an object. -/
def size : Json → Nat
  | .null => 0
  | .arr xs => xs.length
  | .obj ms => ms.length
  | _ => 1

/-- `find(key)`; a value that is not an object has no members. -/
def find? (key : Bytes) : Json → Option Json
  | .obj ms => ms.lookup key
  | _ => none

def contains (key : Bytes) (j : Json) : Bool := (j.find? key).isSome

/-- `j[key]`, on a const value. -/
def member (key : Bytes) (j : Json) : Except JsonError Json :=
  match j.find? key with
  | some v => .ok v
  | none => .error .noMember

/-- `j.contains(key) && j[key].is_…()`. -/
def memberIs (key : Bytes) (is : Json → Bool) (j : Json) : Except JsonError Bool :=
  if j.contains key then (j.member key).map is else .ok false

/-- `j.contains(key) ? j[key] : dflt`. -/
def memberOr (j : Json) (key : Bytes) (dflt : Json) : Except JsonError Json :=
  if j.contains key then j.member key else .ok dflt

/-- `get<std::string>()`. -/
def getString : Json → Except JsonError Bytes
  | .str s => .ok s
  | _ => .error .notConvertible

/-- `value(key, default)` at type `std::string`: a member that is present must convert. -/
def value (key dflt : Bytes) : Json → Except JsonError Bytes
  | .obj ms =>
    match ms.lookup key with
    | some v => v.getString
    | none => .ok dflt
  | _ => .error .valueOnNonObject

/-! ### What a check rules out

A handler looks at a member only after `contains` and a type test. After those the accessor
returns, and the value it returns is the member. -/

theorem member_of_find {j v : Json} {key : Bytes} (h : j.find? key = some v) :
    j.member key = .ok v := by
  rw [member, h]

/-- A type check behind `contains` does not raise. -/
theorem memberIs_eq (j : Json) (key : Bytes) (is : Json → Bool) :
    j.memberIs key is = .ok ((j.find? key).any is) := by
  unfold memberIs member contains
  cases j.find? key <;> rfl

theorem quiet_memberIs (j : Json) (key : Bytes) (is : Json → Bool) :
    Quiet (j.memberIs key is) := ⟨_, memberIs_eq j key is⟩

theorem memberOr_eq (j dflt : Json) (key : Bytes) :
    j.memberOr key dflt = .ok ((j.find? key).getD dflt) := by
  unfold memberOr member contains
  cases j.find? key <;> rfl

theorem quiet_memberOr (j dflt : Json) (key : Bytes) : Quiet (j.memberOr key dflt) :=
  ⟨_, memberOr_eq j dflt key⟩

theorem eq_obj_of_isObject {j : Json} (h : j.isObject = true) : ∃ ms, j = .obj ms := by
  cases j with
  | obj ms => exact ⟨ms, rfl⟩
  | _ => cases h

theorem isObject_of_find {j v : Json} {key : Bytes} (h : j.find? key = some v) :
    j.isObject = true := by
  cases j with
  | obj ms => rfl
  | _ => cases h

theorem value_of_find {j : Json} {key dflt s : Bytes} (h : j.find? key = some (.str s)) :
    j.value key dflt = .ok s := by
  cases j with
  | obj ms =>
      have h : ms.lookup key = some (.str s) := h
      rw [value, h]
      rfl
  | _ => cases h

/-- `value` answers with the member, or with the default of a member that is missing. -/
theorem find_of_value {j : Json} {key dflt s : Bytes} (h : j.value key dflt = .ok s) :
    j.find? key = some (.str s) ∨ s = dflt := by
  cases j with
  | obj ms =>
      show ms.lookup key = some (.str s) ∨ s = dflt
      cases hfind : ms.lookup key with
      | none =>
          simp only [value, hfind] at h
          cases h
          exact Or.inr rfl
      | some v =>
          simp only [value, hfind] at h
          cases v <;> cases h
          exact Or.inl rfl
  | _ => cases h

theorem eq_str_of_isString {j : Json} (h : j.isString = true) : ∃ s, j = .str s := by
  cases j with
  | str s => exact ⟨s, rfl⟩
  | _ => cases h

/-- A member that `memberIs` found to be a string can be read as one. -/
theorem quiet_getString_of_memberIs {j v : Json} {key : Bytes}
    (h : j.memberIs key isString = .ok true) (hv : j.member key = .ok v) : Quiet v.getString := by
  rw [memberIs_eq] at h
  obtain ⟨w, hfind, hw⟩ := (Option.any_eq_true _ _).mp (Except.ok.inj h)
  rw [member_of_find hfind] at hv
  cases hv
  obtain ⟨s, rfl⟩ := eq_str_of_isString hw
  exact ⟨s, rfl⟩

/-- A member that `memberIs` accepted is there. -/
theorem quiet_member_of_memberIs {j : Json} {key : Bytes} {is : Json → Bool}
    (h : j.memberIs key is = .ok true) : Quiet (j.member key) := by
  rw [memberIs_eq] at h
  obtain ⟨v, hfind, -⟩ := (Option.any_eq_true _ _).mp (Except.ok.inj h)
  exact ⟨v, member_of_find hfind⟩

/-- `value` at type `std::string` raises unless the member is a string or missing. -/
theorem quiet_value_iff {j : Json} {key dflt : Bytes} (h : j.isObject = true) :
    Quiet (j.value key dflt) ↔ ∀ v, j.find? key = some v → v.isString = true := by
  cases j with
  | obj ms =>
      unfold value
      cases hfind : ms.lookup key with
      | none => simp [Quiet, find?, hfind]
      | some v => cases v <;> simp [Quiet, find?, hfind, getString, isString]
  | _ => cases h

/-! ## Building objects

An object is put together by assignment. Where its keys differ, it has each of them. -/

/-- `json{{k₁, v₁}, …}`. -/
def object (kvs : List (Bytes × Json)) : Json :=
  .obj (kvs.foldl (fun ms kv => OrderedMap.emplace bytesLt kv.1 kv.2 ms) [])

/-- `j[k] = v` on an object; `null` becomes one. -/
def set (j : Json) (k : Bytes) (v : Json) : Json :=
  match j with
  | .obj ms => .obj (OrderedMap.assign bytesLt k v ms)
  | .null => .obj [(k, v)]
  | j => j

/-- A literal whose keys differ has the members it was written with. -/
theorem find?_object {kvs : List (Bytes × Json)} (h : (kvs.map Prod.fst).Nodup) (k : Bytes) :
    (object kvs).find? k = kvs.lookup k := by
  have hfold : ∀ (kvs ms : List (Bytes × Json)), (kvs.map Prod.fst).Nodup →
      (∀ kv ∈ kvs, ms.lookup kv.1 = none) →
      (kvs.foldl (fun ms kv => OrderedMap.emplace bytesLt kv.1 kv.2 ms) ms).lookup k =
        (kvs.lookup k).or (ms.lookup k) := by
    intro kvs
    induction kvs with
    | nil => exact fun ms _ _ => rfl
    | cons kv kvs ih =>
        intro ms hkeys hnew
        obtain ⟨hfirst, hrest⟩ := List.nodup_cons.mp hkeys
        have hnone := hnew kv (List.mem_cons_self ..)
        rw [List.foldl_cons, ih _ hrest, OrderedMap.lookup_emplace hnone, List.lookup_cons_if]
        · by_cases hk : k = kv.1
          · have hgone : kvs.lookup k = none := by
              refine List.lookup_eq_none_iff.mpr fun e he => ?_
              rw [bne_iff_ne, hk]
              intro heq
              exact hfirst (heq ▸ List.mem_map_of_mem he)
            rw [hgone, if_pos hk, if_pos hk]
            rfl
          · rw [if_neg hk, if_neg hk]
        · intro e he
          have hne : e.1 ≠ kv.1 := by
            intro heq
            exact hfirst (heq ▸ List.mem_map_of_mem he)
          rw [OrderedMap.lookup_emplace hnone, if_neg hne]
          exact hnew e (List.mem_cons_of_mem _ he)
  exact (hfold kvs [] h (fun _ _ => rfl)).trans (Option.or_none)

/-- Assigning a member of an object gives it its value and leaves the others. -/
theorem find?_set {j : Json} (hj : j.isObject = true) (k k' : Bytes) (v : Json) :
    (j.set k v).find? k' = if k' = k then some v else j.find? k' := by
  cases j with
  | obj ms => exact OrderedMap.lookup_assign k k' v ms
  | _ => cases hj

theorem isObject_set {j v : Json} {k : Bytes} (h : j.isObject = true) :
    (j.set k v).isObject = true := by
  obtain ⟨ms, rfl⟩ := eq_obj_of_isObject h
  rfl

theorem isObject_ite {c : Prop} [Decidable c] {x y : Json} (hx : x.isObject = true)
    (hy : y.isObject = true) : (if c then x else y).isObject = true := by
  split
  · exact hx
  · exact hy

/-! ## UTF-8 clean values

Cleanliness goes through objects and arrays member by member. -/

mutual
def clean : Json → Bool
  | .str s => decide (Utf8 s)
  | .arr xs => cleanAll xs
  | .obj ms => cleanMembers ms
  | _ => true
def cleanAll : List Json → Bool
  | [] => true
  | x :: xs => clean x && cleanAll xs
def cleanMembers : List (Bytes × Json) → Bool
  | [] => true
  | (k, v) :: ms => decide (Utf8 k) && clean v && cleanMembers ms
end

/-- Every string and every key in `j` is well-formed UTF-8. -/
def Clean (j : Json) : Prop := j.clean = true

instance (j : Json) : Decidable j.Clean := inferInstanceAs (Decidable (_ = true))

@[simp] theorem clean_null : Clean .null := rfl
@[simp] theorem clean_bool (b : Bool) : Clean (.bool b) := rfl
@[simp] theorem clean_int (n : Int) : Clean (.int n) := rfl
@[simp] theorem clean_uint (n : Nat) : Clean (.uint n) := rfl
@[simp] theorem clean_float (bits : UInt64) : Clean (.float bits) := rfl

@[simp] theorem clean_str_iff {s : Bytes} : Clean (.str s) ↔ Utf8 s := by
  simp [Clean, clean]

theorem cleanAll_iff {xs : List Json} : cleanAll xs = true ↔ ∀ x ∈ xs, x.Clean := by
  induction xs with
  | nil => simp [cleanAll]
  | cons x xs ih => simp [cleanAll, ih, Clean]

theorem cleanMembers_iff {ms : List (Bytes × Json)} :
    cleanMembers ms = true ↔ ∀ kv ∈ ms, Utf8 kv.1 ∧ kv.2.Clean := by
  induction ms with
  | nil => simp [cleanMembers]
  | cons kv ms ih =>
      obtain ⟨k, v⟩ := kv
      simp [cleanMembers, ih, Clean, and_assoc]

@[simp] theorem clean_arr_iff {xs : List Json} : Clean (.arr xs) ↔ ∀ x ∈ xs, x.Clean := by
  rw [Clean, clean, cleanAll_iff]

@[simp] theorem clean_obj_iff {ms : List (Bytes × Json)} :
    Clean (.obj ms) ↔ ∀ kv ∈ ms, Utf8 kv.1 ∧ kv.2.Clean := by
  rw [Clean, clean, cleanMembers_iff]

/-! ### Cleanliness of what is built

An object is clean when its keys and values are, however it was put together, and a member of a
clean value is clean. -/

/-- What holds of all that a literal was written with holds of its members. -/
theorem exists_object {P : Bytes × Json → Prop} {kvs : List (Bytes × Json)} (h : ∀ kv ∈ kvs, P kv) :
    ∃ ms, object kvs = .obj ms ∧ ∀ kv ∈ ms, P kv := by
  have hfold : ∀ (kvs ms : List (Bytes × Json)), (∀ kv ∈ kvs, P kv) → (∀ kv ∈ ms, P kv) →
      ∀ kv ∈ kvs.foldl (fun ms kv => OrderedMap.emplace bytesLt kv.1 kv.2 ms) ms, P kv := by
    intro kvs
    induction kvs with
    | nil => exact fun ms _ hms => hms
    | cons kv kvs ih =>
        intro ms hkvs hms
        refine ih _ (fun x hx => hkvs x (List.mem_cons_of_mem _ hx)) fun x hx => ?_
        rcases OrderedMap.mem_emplace hx with rfl | hx
        · exact hkvs kv (List.mem_cons_self ..)
        · exact hms x hx
  exact ⟨_, rfl, hfold kvs [] h (by simp)⟩

/-- An object literal is clean when its keys and values are. -/
theorem clean_object {kvs : List (Bytes × Json)} (h : ∀ kv ∈ kvs, Utf8 kv.1 ∧ kv.2.Clean) :
    Clean (object kvs) := by
  obtain ⟨ms, hms, hmembers⟩ := exists_object h
  rw [hms]
  exact clean_obj_iff.mpr hmembers

theorem Clean.set {j v : Json} {k : Bytes} (hj : j.Clean) (hk : Utf8 k) (hv : v.Clean) :
    (j.set k v).Clean := by
  cases j with
  | obj ms =>
      refine clean_obj_iff.mpr fun kv hkv => ?_
      rcases OrderedMap.mem_assign hkv with rfl | hkv
      · exact ⟨hk, hv⟩
      · exact clean_obj_iff.mp hj kv hkv
  | null =>
      refine clean_obj_iff.mpr fun kv hkv => ?_
      rw [List.mem_singleton] at hkv
      exact hkv ▸ ⟨hk, hv⟩
  | _ => exact hj

theorem Clean.find? {j v : Json} {k : Bytes} (hj : j.Clean) (h : j.find? k = some v) : v.Clean := by
  cases j with
  | obj ms =>
      have h : ms.lookup k = some v := h
      exact (clean_obj_iff.mp hj _ (List.mem_of_lookup h)).2
  | _ => cases h

theorem Clean.getString {j : Json} {s : Bytes} (hj : j.Clean) (h : j.getString = .ok s) :
    Utf8 s := by
  cases j with
  | str t => cases h; exact clean_str_iff.mp hj
  | _ => cases h

end Json

/-! ## The library

`Nlohmann.only` and `also` know a text or two, for runs on given inputs. -/

/-- What the bridge takes from `nlohmann::json` besides the value type. `parse` is
`parse(…, allow_exceptions = false)`, `none` a discarded value; it never throws and yields only
well-formed strings. `text` is the compact dump of a clean value, `textReplacing` the dump with
`error_handler_t::replace`. -/
structure Nlohmann where
  parse : Bytes → Option Json
  text : Json → Bytes
  textReplacing : Json → Bytes
  parse_clean : ∀ {b : Bytes} {j : Json}, parse b = some j → j.Clean

/-- `dump()`: the strict error handler refuses a value that is not UTF-8 clean. -/
def Nlohmann.dump (lib : Nlohmann) (j : Json) : Except JsonError Bytes :=
  if j.Clean then .ok (lib.text j) else .error .invalidUtf8

theorem Nlohmann.dump_ok_iff {lib : Nlohmann} {j : Json} :
    (∃ text, lib.dump j = .ok text) ↔ j.Clean := by
  unfold Nlohmann.dump
  split <;> simp_all

/-- A library for the value `[]` alone: it reads and writes that one text. -/
def Nlohmann.emptyArray : Nlohmann where
  parse b := if b = JsonRpcBridge.str "[]" then some (.arr []) else none
  text _ := JsonRpcBridge.str "[]"
  textReplacing _ := JsonRpcBridge.str "[]"
  parse_clean {b j} h := by
    split at h <;> cases h
    simp

/-- A library that reads one text. -/
def Nlohmann.only (text : Bytes) (j : Json) (hj : j.Clean) : Nlohmann where
  parse b := if b = text then some j else none
  text _ := text
  textReplacing _ := text
  parse_clean {b j'} h := by
    split at h <;> cases h
    exact hj

@[simp] theorem Nlohmann.parse_only (text : Bytes) (j : Json) (hj : j.Clean) :
    (Nlohmann.only text j hj).parse text = some j := if_pos rfl

/-- A library that reads one text more. -/
def Nlohmann.also (lib : Nlohmann) (text : Bytes) (j : Json) (hj : j.Clean) : Nlohmann where
  parse b := if b = text then some j else lib.parse b
  text := lib.text
  textReplacing := lib.textReplacing
  parse_clean {b j'} h := by
    split at h
    · cases h
      exact hj
    · exact lib.parse_clean h

end JsonRpcBridge
