import Mathlib.Data.List.Sort
import Kumiko.Engine.Ownership

/-!
# Values of fields and their key-stable text

`isUnchangedValue` compares the texts that `stableJson` writes with every object's keys sorted. Two values with
the same text hold the same leaf under every path (`sameStored_of_isUnchangedValue`), so a value that differs anywhere
counts as changed.
-/

namespace Kumiko

/-- A value of a field or a sub-field. -/
inductive JsonValue where
  | undefined
  | null
  | prim (p : Prim)
  | array (items : List JsonValue)
  | object (entries : List (String × JsonValue))

namespace JsonValue

/-- No object of the value has a key twice. -/
inductive Valid : JsonValue → Prop
  | undefined : Valid .undefined
  | null : Valid .null
  | prim (p : Prim) : Valid (.prim p)
  | array {items : List JsonValue} (h : ∀ v ∈ items, v.Valid) : Valid (.array items)
  | object {entries : List (String × JsonValue)} (hnodup : (entries.map Prod.fst).Nodup)
      (h : ∀ key v, (key, v) ∈ entries → v.Valid) : Valid (.object entries)

/-- How the in-memory checks see the value. -/
def toJs : JsonValue → JsValue
  | .undefined => .undefined
  | .null => .null
  | .prim p => .prim p
  | .array _ => .object
  | .object _ => .object

end JsonValue

section

-- the order `localeCompare` sorts keys in; nothing below depends on it
variable (collates : String → String → Bool)

mutual

/-- What `stableJson` writes, as the tree its text is of: `none` where `JSON.stringify` has no text. Reference:
`stableJson`. -/
def stableJson : JsonValue → Option JsonValue
  | .undefined => none
  | .null => some .null
  | .prim p => some (.prim p)
  | .array items => some (.array (stableItems items))
  | .object entries =>
    some (.object ((stableEntries entries).insertionSort fun a b => collates a.1 b.1 = true))

/-- An item without a text is written as `null`. -/
def stableItems : List JsonValue → List JsonValue
  | [] => []
  | item :: items => (stableJson item).getD .null :: stableItems items

/-- An entry without a text is left out. -/
def stableEntries : List (String × JsonValue) → List (String × JsonValue)
  | [] => []
  | (key, value) :: entries =>
    match stableJson value with
    | none => stableEntries entries
    | some text => (key, text) :: stableEntries entries

end

mutual

/-- Whether two trees are the same. -/
def JsonValue.beq : JsonValue → JsonValue → Bool
  | .undefined, .undefined => true
  | .null, .null => true
  | .prim p, .prim q => p == q
  | .array vs, .array ws => JsonValue.beqItems vs ws
  | .object es, .object fs => JsonValue.beqEntries es fs
  | _, _ => false

def JsonValue.beqItems : List JsonValue → List JsonValue → Bool
  | [], [] => true
  | v :: vs, w :: ws => JsonValue.beq v w && JsonValue.beqItems vs ws
  | _, _ => false

def JsonValue.beqEntries : List (String × JsonValue) → List (String × JsonValue) → Bool
  | [], [] => true
  | (k, v) :: es, (l, w) :: fs => k == l && JsonValue.beq v w && JsonValue.beqEntries es fs
  | _, _ => false

end

/-- Reference: `isUnchangedValue`. -/
def isUnchangedValue (a b : JsonValue) : Bool :=
  match stableJson collates a, stableJson collates b with
  | none, none => true
  | some x, some y => x.beq y
  | _, _ => false

end

/-! ## What a value holds -/

/-- A step into a value. -/
inductive PathStep where
  | item (i : ℕ)
  | key (k : String)

/-- What stands at the end of a path. -/
inductive Leaf where
  | null
  | prim (p : Prim)
  | array (length : ℕ)
  | object

namespace JsonValue

/-- An item of an array: `undefined` there is stored as `null`. -/
def itemOf : JsonValue → JsonValue
  | .undefined => .null
  | v => v

/-- What the stored value holds under a path; `none` where nothing is stored. -/
def leaf : JsonValue → List PathStep → Option Leaf
  | .undefined, _ => none
  | .null, [] => some .null
  | .prim p, [] => some (.prim p)
  | .array items, [] => some (.array items.length)
  | .object _, [] => some .object
  | .array items, .item i :: path =>
    match items[i]? with
    | none => none
    | some v => v.itemOf.leaf path
  | .object entries, .key k :: path =>
    match entries.lookup k with
    | none => none
    | some v => v.leaf path
  | _, _ :: _ => none

/-- Two values are stored alike. -/
def SameStored (a b : JsonValue) : Prop := ∀ path, a.leaf path = b.leaf path

end JsonValue

/-! ## Unchanged values are stored alike -/

variable {collates : String → String → Bool}

mutual

theorem JsonValue.eq_of_beq : ∀ {a b : JsonValue}, a.beq b = true → a = b
  | .undefined, .undefined, _ => rfl
  | .null, .null, _ => rfl
  | .prim p, .prim q, h => by
    simp only [JsonValue.beq, beq_iff_eq] at h
    rw [h]
  | .array vs, .array ws, h => by
    simp only [JsonValue.beq] at h
    rw [JsonValue.eq_of_beqItems h]
  | .object es, .object fs, h => by
    simp only [JsonValue.beq] at h
    rw [JsonValue.eq_of_beqEntries h]
  | .undefined, .null, h | .undefined, .prim _, h | .undefined, .array _, h | .undefined, .object _, h
  | .null, .undefined, h | .null, .prim _, h | .null, .array _, h | .null, .object _, h
  | .prim _, .undefined, h | .prim _, .null, h | .prim _, .array _, h | .prim _, .object _, h
  | .array _, .undefined, h | .array _, .null, h | .array _, .prim _, h | .array _, .object _, h
  | .object _, .undefined, h | .object _, .null, h | .object _, .prim _, h | .object _, .array _, h => by
    simp [JsonValue.beq] at h

theorem JsonValue.eq_of_beqItems : ∀ {vs ws : List JsonValue}, JsonValue.beqItems vs ws = true → vs = ws
  | [], [], _ => rfl
  | v :: vs, w :: ws, h => by
    simp only [JsonValue.beqItems, Bool.and_eq_true] at h
    rw [JsonValue.eq_of_beq h.1, JsonValue.eq_of_beqItems h.2]
  | [], _ :: _, h | _ :: _, [], h => by simp [JsonValue.beqItems] at h

theorem JsonValue.eq_of_beqEntries : ∀ {es fs : List (String × JsonValue)},
    JsonValue.beqEntries es fs = true → es = fs
  | [], [], _ => rfl
  | (k, v) :: es, (l, w) :: fs, h => by
    simp only [JsonValue.beqEntries, Bool.and_eq_true, beq_iff_eq] at h
    rw [h.1.1, JsonValue.eq_of_beq h.1.2, JsonValue.eq_of_beqEntries h.2]
  | [], _ :: _, h | _ :: _, [], h => by simp [JsonValue.beqEntries] at h

end

/-- Only what is not there has no text. -/
theorem stableJson_eq_none {v : JsonValue} (h : stableJson collates v = none) : v = .undefined := by
  cases v with
  | undefined => rfl
  | null | prim _ | array _ | object _ => simp [stableJson] at h

theorem stableJson_ne_undefined (v : JsonValue) : stableJson collates v ≠ some .undefined := by
  cases v <;> simp [stableJson]

theorem stableItems_getElem? (items : List JsonValue) (i : ℕ) :
    (stableItems collates items)[i]? = items[i]?.map fun v => (stableJson collates v).getD .null := by
  induction items generalizing i with
  | nil => simp [stableItems]
  | cons item items ih =>
    rw [stableItems]
    cases i with
    | zero => rfl
    | succ i => simpa using ih i

theorem stableItems_length (items : List JsonValue) : (stableItems collates items).length = items.length := by
  induction items with
  | nil => rw [stableItems]
  | cons item items ih => rw [stableItems, List.length_cons, List.length_cons, ih]

theorem key_mem_of_mem_stableEntries {entries : List (String × JsonValue)} {entry : String × JsonValue}
    (h : entry ∈ stableEntries collates entries) : entry.1 ∈ entries.map Prod.fst := by
  induction entries with
  | nil => simp [stableEntries] at h
  | cons head entries ih =>
    obtain ⟨key, value⟩ := head
    rw [stableEntries] at h
    split at h
    · exact List.mem_cons_of_mem _ (ih h)
    · rcases List.mem_cons.1 h with rfl | h
      · exact List.mem_cons_self
      · exact List.mem_cons_of_mem _ (ih h)

theorem stableEntries_nodup {entries : List (String × JsonValue)} (h : (entries.map Prod.fst).Nodup) :
    ((stableEntries collates entries).map Prod.fst).Nodup := by
  induction entries with
  | nil => simp [stableEntries]
  | cons head entries ih =>
    obtain ⟨key, value⟩ := head
    rw [List.map_cons, List.nodup_cons] at h
    rw [stableEntries]
    split
    · exact ih h.2
    · rw [List.map_cons, List.nodup_cons]
      refine ⟨fun hmem => h.1 ?_, ih h.2⟩
      obtain ⟨entry, hentry, hkey⟩ := List.mem_map.1 hmem
      have hkeys := key_mem_of_mem_stableEntries hentry
      rwa [hkey] at hkeys

/-- The entry of a key is in the list, and the only one of its key. -/
theorem lookup_eq_some_iff_of_nodup {β : Type*} {entries : List (String × β)}
    (h : (entries.map Prod.fst).Nodup) {key : String} {value : β} :
    entries.lookup key = some value ↔ (key, value) ∈ entries := by
  induction entries with
  | nil => simp
  | cons head entries ih =>
    obtain ⟨k, v⟩ := head
    rw [List.map_cons, List.nodup_cons] at h
    rw [List.lookup_cons]
    by_cases hk : key = k
    · subst hk
      have hnot : ∀ w, (key, w) ∉ entries := fun w hw => h.1 (List.mem_map.2 ⟨_, hw, rfl⟩)
      simp [hnot, eq_comm]
    · rw [beq_false_of_ne hk]
      simp [ih h.2, hk]

/-- Sorting does not change what a key holds. -/
theorem lookup_perm {β : Type*} {entries entries' : List (String × β)} (hperm : entries.Perm entries')
    (h : (entries.map Prod.fst).Nodup) (key : String) : entries.lookup key = entries'.lookup key := by
  have h' : (entries'.map Prod.fst).Nodup := (hperm.map Prod.fst).nodup_iff.1 h
  ext value
  rw [lookup_eq_some_iff_of_nodup h, lookup_eq_some_iff_of_nodup h', hperm.mem_iff]

theorem stableEntries_lookup {entries : List (String × JsonValue)} (h : (entries.map Prod.fst).Nodup)
    (key : String) : (stableEntries collates entries).lookup key =
      (entries.lookup key).bind (stableJson collates) := by
  induction entries with
  | nil => simp [stableEntries]
  | cons head entries ih =>
    obtain ⟨k, v⟩ := head
    rw [List.map_cons, List.nodup_cons] at h
    rw [stableEntries, List.lookup_cons]
    by_cases hk : key = k
    · subst hk
      have hnone : entries.lookup key = none := by
        by_contra hsome
        obtain ⟨w, hw⟩ := Option.ne_none_iff_exists'.1 hsome
        exact h.1 (List.mem_map.2 ⟨_, (lookup_eq_some_iff_of_nodup h.2).1 hw, rfl⟩)
      cases htext : stableJson collates v with
      | none => simp [ih h.2, hnone, htext]
      | some text => simp [htext]
    · rw [beq_false_of_ne hk]
      cases htext : stableJson collates v with
      | none => simpa using ih h.2
      | some text => simpa [List.lookup_cons, beq_false_of_ne hk] using ih h.2

/-- The tree of a value's text holds what the value holds. -/
theorem leaf_stableJson {v text : JsonValue} (hvalid : v.Valid) (h : stableJson collates v = some text)
    (path : List PathStep) : text.leaf path = v.leaf path := by
  induction path generalizing v text with
  | nil =>
    cases hvalid with
    | undefined => simp [stableJson] at h
    | null => simp only [stableJson, Option.some.injEq] at h; rw [← h]
    | prim p => simp only [stableJson, Option.some.injEq] at h; rw [← h]
    | array _ =>
      simp only [stableJson, Option.some.injEq] at h
      rw [← h, JsonValue.leaf, JsonValue.leaf, stableItems_length]
    | object _ _ =>
      simp only [stableJson, Option.some.injEq] at h
      rw [← h, JsonValue.leaf, JsonValue.leaf]
  | cons step path ih =>
    cases hvalid with
    | undefined => simp [stableJson] at h
    | null => simp only [stableJson, Option.some.injEq] at h; rw [← h]
    | prim p => simp only [stableJson, Option.some.injEq] at h; rw [← h]
    | @array items hitems =>
      simp only [stableJson, Option.some.injEq] at h
      rw [← h]
      cases step with
      | key k => simp [JsonValue.leaf]
      | item i =>
        simp only [JsonValue.leaf, stableItems_getElem?]
        cases hitem : items[i]? with
        | none => rfl
        | some v =>
          have hv := hitems v (List.mem_of_getElem? hitem)
          simp only [Option.map_some]
          cases htext : stableJson collates v with
          | none => rw [stableJson_eq_none htext]; rfl
          | some t =>
            have hdefined : v.itemOf = v := by
              cases v <;> simp_all [JsonValue.itemOf, stableJson]
            have hdefined' : t.itemOf = t := by
              cases t with
              | undefined => exact absurd htext (stableJson_ne_undefined v)
              | null | prim _ | array _ | object _ => rfl
            rw [Option.getD_some, hdefined, hdefined']
            exact ih hv htext
    | @object entries hnodup hentries =>
      simp only [stableJson, Option.some.injEq] at h
      rw [← h]
      cases step with
      | item i => simp [JsonValue.leaf]
      | key k =>
        have hlookup := lookup_perm (List.perm_insertionSort (fun a b => collates a.1 b.1 = true)
          (stableEntries collates entries)).symm (stableEntries_nodup hnodup) k
        simp only [JsonValue.leaf, ← hlookup, stableEntries_lookup hnodup]
        cases hentry : entries.lookup k with
        | none => rfl
        | some v =>
          have hv := hentries k v ((lookup_eq_some_iff_of_nodup hnodup).1 hentry)
          simp only [Option.bind_some]
          cases htext : stableJson collates v with
          | none => rw [stableJson_eq_none htext]; simp [JsonValue.leaf]
          | some t => exact ih hv htext

/-- What counts as unchanged is stored alike. -/
theorem sameStored_of_isUnchangedValue {a b : JsonValue} (ha : a.Valid) (hb : b.Valid)
    (h : isUnchangedValue collates a b = true) : a.SameStored b := by
  intro path
  unfold isUnchangedValue at h
  split at h
  · next hna hnb => rw [stableJson_eq_none hna, stableJson_eq_none hnb]
  · next x y hx hy =>
    rw [← leaf_stableJson ha hx path, ← leaf_stableJson hb hy path, JsonValue.eq_of_beq h]
  · cases h

end Kumiko
