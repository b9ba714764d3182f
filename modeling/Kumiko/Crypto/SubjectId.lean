import Mathlib.Data.List.TakeWhile

/-!
# Subjects and their storage keys

`kms-adapter-types.ts`. A data-encryption key belongs to a subject, a user, a tenant or a single
record, and is stored under a compact text key.
-/

namespace Kumiko

/-- Bytes as the ciphers and the key table hold them. -/
abbrev Bytes := List UInt8

/-- The subject a key belongs to. Reference: `SubjectId`. -/
inductive SubjectId
  | user (userId : String)
  | tenant (tenantId : String)
  | record (entity id : String)

/-- Reference: `RECORD_ENTITY_PATTERN`. -/
def recordEntityPattern (entity : String) : Bool :=
  match entity.toList with
  | [] => false
  | c :: cs => c.isAlpha && cs.all fun c => c.isAlphanum || c = '_' || c = '-'

/-- Reference: `subjectKeyForRecord`. -/
def subjectKeyForRecord (entity id : String) : Except String String :=
  if !recordEntityPattern entity then
    .error ("Invalid record entity for subject key: \"" ++ entity ++
      "\" — must match /^[A-Za-z][A-Za-z0-9_-]*$/")
  else if id = "" then .error "Invalid record id for subject key: empty"
  else .ok ("record:" ++ entity ++ ":" ++ id)

/-- Reference: `subjectIdToKey`. -/
def subjectIdToKey : SubjectId → Except String String
  | .user userId => .ok ("user:" ++ userId)
  | .tenant tenantId => .ok ("tenant:" ++ tenantId)
  | .record entity id => subjectKeyForRecord entity id

/-- Whether `key` starts with `tag`. -/
def startsWith (tag key : String) : Bool :=
  tag.toList.isPrefixOf key.toList

/-- Reference: `subjectIdFromKey`. -/
def subjectIdFromKey (key : String) : Except String SubjectId :=
  if startsWith "user:" key then .ok (.user (.ofList (key.toList.drop 5)))
  else if startsWith "tenant:" key then .ok (.tenant (.ofList (key.toList.drop 7)))
  else if startsWith "record:" key then
    let rest := key.toList.drop 7
    let entity := rest.takeWhile (· ≠ ':')
    let id := (rest.dropWhile (· ≠ ':')).drop 1
    if entity = [] ∨ id = [] then .error ("Invalid subject key: " ++ key)
    else .ok (.record (.ofList entity) (.ofList id))
  else .error ("Invalid subject key: " ++ key)

theorem colon_not_mem_entity {entity : String} (h : recordEntityPattern entity = true) :
    ∀ c ∈ entity.toList, c ≠ ':' := by
  have hcolon : Char.isAlpha ':' = false := by decide
  unfold recordEntityPattern at h
  cases hlist : entity.toList with
  | nil => simp [hlist] at h
  | cons c cs =>
    rw [hlist] at h
    simp only [Bool.and_eq_true, List.all_eq_true] at h
    intro d hd hdc
    subst hdc
    rcases List.mem_cons.mp hd with rfl | hd
    · simp [hcolon] at h
    · exact absurd (h.2 _ hd) (by decide)

/-- A subject is read back from its key. -/
theorem subjectIdFromKey_of_toKey {subject : SubjectId} {key : String}
    (h : subjectIdToKey subject = .ok key) : subjectIdFromKey key = .ok subject := by
  cases subject with
  | user userId =>
    obtain rfl : "user:" ++ userId = key := Except.ok.inj h
    simp [subjectIdFromKey, startsWith]
  | tenant tenantId =>
    obtain rfl : "tenant:" ++ tenantId = key := Except.ok.inj h
    simp [subjectIdFromKey, startsWith]
  | record entity id =>
    simp only [subjectIdToKey, subjectKeyForRecord] at h
    split at h
    · cases h
    · rename_i hpattern
      split at h
      · cases h
      · rename_i hid
        obtain rfl := Except.ok.inj h
        have hpattern : recordEntityPattern entity = true := by simpa using hpattern
        have hentity : ∀ c ∈ entity.toList, decide (c ≠ ':') = true := fun c hc =>
          decide_eq_true (colon_not_mem_entity hpattern c hc)
        have hne : entity.toList ≠ [] := by
          intro hnil
          simp [recordEntityPattern, hnil] at hpattern
        have hidne : id.toList ≠ [] := by simpa using hid
        have hrest : ("record:" ++ entity ++ ":" ++ id).toList.drop 7 =
            entity.toList ++ ':' :: id.toList := by
          simp
        have htake : (entity.toList ++ ':' :: id.toList).takeWhile (· ≠ ':') = entity.toList := by
          rw [List.takeWhile_append_of_pos hentity]
          simp
        have hdrop : (entity.toList ++ ':' :: id.toList).dropWhile (· ≠ ':') = ':' :: id.toList := by
          rw [List.dropWhile_append_of_pos hentity]
          simp
        have htags : startsWith "user:" ("record:" ++ entity ++ ":" ++ id) = false ∧
            startsWith "tenant:" ("record:" ++ entity ++ ":" ++ id) = false ∧
            startsWith "record:" ("record:" ++ entity ++ ":" ++ id) = true := by
          simp [startsWith, List.isPrefixOf]
        simp only [subjectIdFromKey, htags.1, htags.2.1, htags.2.2, hrest, htake, hdrop,
          List.drop_succ_cons, List.drop_zero, if_true, if_neg (not_or.mpr ⟨hne, hidne⟩),
          String.ofList_toList, Bool.false_eq_true, if_false]

end Kumiko
