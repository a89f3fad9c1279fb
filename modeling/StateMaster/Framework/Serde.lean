import StateMaster.Framework.Json
import StateMaster.Framework.Run

/-!
# Reading records from documents

A record is written as a map from its field names, and read back from a self-describing document
the way a derived reader does it: from a map, where members come in any order, unknown ones are
skipped and a repeated one is an error; or from an array, by position. A field that is missing is an
error unless it is optional.

* `Codec` — documents as bytes, and `Codec.Lawful` — what a binary format promises of it;
* `Json.canonical` — what is left of a document in a value whose maps are kept in key order, and how
  deep it is nested then (`Json.depth_canonical_object`);
* `readFields` — the loop of a derived reader; a name that is not among the members is not found by
  it (`readMembers_lookup_eq_none`).
-/

namespace Framework

/-- Why a value could not be read. -/
inductive DecodeError where
  /-- The bytes are not a document. -/
  | malformed (reason : String)
  | invalidType (found : Json) (expected : String)
  | invalidValue (found : Json) (expected : String)
  | invalidLength (length : ℕ) (expected : String)
  | missingField (name : String)
  | duplicateField (name : String)
  /-- A text that is not of the expected form, a date for example. -/
  | custom (reason : String)
deriving DecidableEq, Repr

/-- A binary format for documents, and the text of its errors. -/
structure Codec where
  toVecNamed : Json → List UInt8
  fromSlice : List UInt8 → Except DecodeError Json
  render : DecodeError → String

/-- How deep a document may be nested for it to be read. `rmp_serde` counts down from 1024 as it enters
an array or a map and gives up at zero; it writes documents of any depth. -/
def nestingLimit : ℕ := 1023

/-- What the format promises: reading undoes writing as far as reading goes, a document nested deeper
than that is refused, and a byte below `0x80` is that number, whatever follows it. -/
structure Codec.Lawful (codec : Codec) : Prop where
  round_trip : ∀ doc, doc.depth ≤ nestingLimit → codec.fromSlice (codec.toVecNamed doc) = .ok doc
  too_deep : ∀ doc, nestingLimit < doc.depth →
    ∃ e, codec.fromSlice (codec.toVecNamed doc) = .error e
  fixint : ∀ (byte : UInt8) (rest : List UInt8), byte.toNat < 128 →
    codec.fromSlice (byte :: rest) = .ok (.number (.posInt byte.toNat))

/-! ### Maps in key order -/

namespace Json

/-- An unsigned number. -/
def ofNat (n : ℕ) : Json := .number (.posInt n)

@[simp] theorem depth_ofNat (n : ℕ) : (ofNat n).depth = 0 := rfl

/-- A missing value is written as null. -/
def ofOption {α : Type} (write : α → Json) : Option α → Json
  | none => .null
  | some a => write a

/-- Insertion into a map kept in key order, replacing the entry of that key. -/
def insertMember (key : String) (value : Json) : List (String × Json) → List (String × Json)
  | [] => [(key, value)]
  | (k, v) :: rest =>
    match compare key k with
    | .lt => (key, value) :: (k, v) :: rest
    | .eq => (key, value) :: rest
    | .gt => (k, v) :: insertMember key value rest

/-- A map built entry by entry. -/
def ofMembers (members : List (String × Json)) : Json :=
  .object (members.foldl (fun acc p => insertMember p.1 p.2 acc) [])

mutual

/-- A document read into a value whose maps are kept in key order: of two members of one name the
later one stays. -/
def canonical : Json → Json
  | .array items => .array (canonicalItems items)
  | .object members => .object (canonicalMembers members [])
  | .null => .null
  | .bool b => .bool b
  | .number n => .number n
  | .string s => .string s

/-- The items of an array, read so. -/
def canonicalItems : List Json → List Json
  | [] => []
  | d :: rest => canonical d :: canonicalItems rest

/-- The members of a map, inserted one by one. -/
def canonicalMembers : List (String × Json) → List (String × Json) → List (String × Json)
  | [], acc => acc
  | (k, d) :: rest, acc => canonicalMembers rest (insertMember k (canonical d) acc)

end

theorem lookup_cons_eq_ite (k k' : String) (v : Json) (members : List (String × Json)) :
    ((k', v) :: members).lookup k = if k = k' then some v else members.lookup k := by
  rw [List.lookup_cons]
  by_cases hk : k = k'
  · rw [if_pos hk, beq_iff_eq.mpr hk]
  · rw [if_neg hk, beq_false_of_ne hk]

/-- An insertion is seen under its own key and no other. -/
theorem lookup_insertMember (key k : String) (value : Json) (members : List (String × Json)) :
    (insertMember key value members).lookup k
      = if k = key then some value else members.lookup k := by
  induction members with
  | nil => exact lookup_cons_eq_ite k key value []
  | cons p rest ih =>
    obtain ⟨k', v⟩ := p
    unfold insertMember
    cases hcmp : compare key k' with
    | lt => exact lookup_cons_eq_ite k key value _
    | eq =>
      obtain rfl := Std.compare_eq_iff_eq.mp hcmp
      dsimp only
      rw [lookup_cons_eq_ite, lookup_cons_eq_ite]
      by_cases hk : k = key
      · rw [if_pos hk, if_pos hk]
      · rw [if_neg hk, if_neg hk, if_neg hk]
    | gt =>
      -- The key goes further back, past a key that is not its own.
      have hne : key ≠ k' := by
        rintro rfl
        rw [Std.compare_self] at hcmp
        exact absurd hcmp (by decide)
      dsimp only
      rw [lookup_cons_eq_ite, lookup_cons_eq_ite, ih]
      by_cases hk : k = key
      · subst hk
        rw [if_neg hne, if_pos rfl, if_pos rfl]
      · rw [if_neg hk, if_neg hk]

/-- A name that no member has is not there after they are read in. -/
theorem lookup_canonicalMembers_eq_none {k : String} {members acc : List (String × Json)}
    (hmembers : members.lookup k = none) (hacc : acc.lookup k = none) :
    (canonicalMembers members acc).lookup k = none := by
  induction members generalizing acc with
  | nil =>
    unfold canonicalMembers
    exact hacc
  | cons p rest ih =>
    obtain ⟨k', d⟩ := p
    rw [lookup_cons_eq_ite] at hmembers
    split at hmembers
    · exact absurd hmembers (by simp)
    · next hk =>
      unfold canonicalMembers
      refine ih hmembers ?_
      rw [lookup_insertMember, if_neg hk]
      exact hacc

/-- A map built entry by entry has no other names than its entries. -/
theorem lookup_foldl_insertMember_eq_none {k : String} {members acc : List (String × Json)}
    (hmembers : ∀ p ∈ members, p.1 ≠ k) (hacc : acc.lookup k = none) :
    (members.foldl (fun acc p => insertMember p.1 p.2 acc) acc).lookup k = none := by
  induction members generalizing acc with
  | nil => exact hacc
  | cons p rest ih =>
    refine ih (fun q hq => hmembers q (List.mem_cons_of_mem _ hq)) ?_
    rw [lookup_insertMember, if_neg (hmembers p List.mem_cons_self).symm]
    exact hacc

/-- A new key adds a member. -/
theorem depthMembers_insertMember {key : String} (value : Json) {members : List (String × Json)}
    (h : members.lookup key = none) :
    depthMembers (insertMember key value members) = max value.depth (depthMembers members) := by
  induction members with
  | nil => simp [insertMember]
  | cons p rest ih =>
    obtain ⟨k, v⟩ := p
    rw [lookup_cons_eq_ite] at h
    split at h
    · exact absurd h (by simp)
    · next hne =>
      unfold insertMember
      cases hcmp : compare key k with
      | lt => simp
      | eq => exact absurd (Std.compare_eq_iff_eq.mp hcmp) hne
      | gt => simp [ih h, max_left_comm]

theorem depthMembers_insertMember_le (key : String) (value : Json)
    (members : List (String × Json)) :
    depthMembers (insertMember key value members) ≤ max value.depth (depthMembers members) := by
  induction members with
  | nil => simp [insertMember]
  | cons p rest ih =>
    obtain ⟨k, v⟩ := p
    unfold insertMember
    cases compare key k with
    | lt => simp
    | eq =>
      simp only [depthMembers]
      exact max_le_max le_rfl (le_max_right ..)
    | gt =>
      simp only [depthMembers]
      rw [max_left_comm]
      exact max_le_max le_rfl ih

theorem depth_ofMembers_le (members : List (String × Json)) :
    (ofMembers members).depth ≤ depthMembers members + 1 := by
  suffices h : ∀ acc, depthMembers (members.foldl (fun acc p => insertMember p.1 p.2 acc) acc)
      ≤ max (depthMembers members) (depthMembers acc) by
    simpa [ofMembers] using h []
  induction members with
  | nil => simp
  | cons p rest ih =>
    intro acc
    refine (ih _).trans ?_
    rw [depthMembers, max_comm p.2.depth, max_assoc]
    exact max_le_max le_rfl (depthMembers_insertMember_le ..)

/-- A map that names nothing twice keeps all its members. -/
theorem depthMembers_canonicalMembers {members acc : List (String × Json)}
    (hnodup : (members.map Prod.fst).Nodup) (hacc : ∀ p ∈ members, acc.lookup p.1 = none) :
    depthMembers (canonicalMembers members acc)
      = max (depthMembers (members.map fun p => (p.1, p.2.canonical))) (depthMembers acc) := by
  induction members generalizing acc with
  | nil => simp [canonicalMembers]
  | cons p rest ih =>
    obtain ⟨k, d⟩ := p
    obtain ⟨hk, hnodup⟩ := List.nodup_cons.mp hnodup
    rw [canonicalMembers, ih hnodup fun p hp => ?_,
      depthMembers_insertMember _ (hacc (k, d) List.mem_cons_self)]
    · simp [max_left_comm, max_assoc]
    · have hne : p.1 ≠ k := fun heq => hk (List.mem_map.mpr ⟨p, hp, heq⟩)
      rw [lookup_insertMember, if_neg hne]
      exact hacc p (List.mem_cons_of_mem _ hp)

theorem depth_canonical_object {members : List (String × Json)}
    (hnodup : (members.map Prod.fst).Nodup) :
    (Json.object members).canonical.depth
      = depthMembers (members.map fun p => (p.1, p.2.canonical)) + 1 := by
  rw [canonical, depth, depthMembers_canonicalMembers hnodup fun _ _ => rfl]
  simp

theorem canonicalItems_eq_map (items : List Json) : canonicalItems items = items.map canonical := by
  induction items with
  | nil => simp [canonicalItems]
  | cons d rest ih => simp [canonicalItems, ih]

end Json

/-! ### Readers -/

/-- A reader of values of a type. -/
abbrev Reader (α : Type) := Json → Except DecodeError α

namespace Reader

/-- `u64` and `u32`: a non-negative integer in range. -/
def unsigned (bits : ℕ) : Reader ℕ
  | .number (.posInt n) =>
    if n < 2 ^ bits then .ok n
    else .error (.invalidValue (.number (.posInt n)) ("u" ++ toString bits))
  | doc => .error (.invalidType doc ("u" ++ toString bits))

def bool : Reader Bool
  | .bool b => .ok b
  | doc => .error (.invalidType doc "a boolean")

def string : Reader String
  | .string s => .ok s
  | doc => .error (.invalidType doc "a string")

/-- Any document, as a value with maps in key order. -/
def value : Reader Json := fun doc => .ok doc.canonical

def option {α : Type} (read : Reader α) : Reader (Option α)
  | .null => .ok none
  | doc => (read doc).map some

def list {α : Type} (read : Reader α) : Reader (List α)
  | .array items => items.mapM read
  | doc => .error (.invalidType doc "a sequence")

end Reader

/-- The fields of a record: their names and, for each, whether a document will do for it. -/
abbrev FieldChecks := List (String × (Json → Except DecodeError Unit))

/-- A field that is read by `read`. -/
def field {α : Type} (name : String) (read : Reader α) :
    String × (Json → Except DecodeError Unit) :=
  (name, fun doc => (read doc).map fun _ => ())

/-- The loop over the members of a map. A member is read as it comes, so the first bad one is the
error; a second member of one field is an error; unknown members are skipped. -/
def readMembers (checks : FieldChecks) :
    List (String × Json) → List (String × Json) → Except DecodeError (List (String × Json))
  | [], seen => .ok seen
  | (key, doc) :: rest, seen =>
    match checks.lookup key with
    | none => readMembers checks rest seen
    | some check =>
      if (seen.lookup key).isSome then .error (.duplicateField key)
      else do
        check doc
        readMembers checks rest ((key, doc) :: seen)

/-- The loop over the items of an array: one for every field, in the order of the fields. -/
def readItems (total : ℕ) :
    FieldChecks → List Json → List (String × Json) → Except DecodeError (List (String × Json))
  | [], [], seen => .ok seen
  | [], _ :: _, _ => .error (.invalidLength total "fewer elements")
  | _ :: _, [], seen => .error (.invalidLength seen.length "more elements")
  | (name, check) :: checks, doc :: rest, seen => do
    check doc
    readItems total checks rest ((name, doc) :: seen)

/-- What a derived reader finds for its fields. -/
def readFields (record : String) (checks : FieldChecks) :
    Json → Except DecodeError (List (String × Json))
  | .object members => readMembers checks members []
  | .array items => readItems checks.length checks items []
  | doc => .error (.invalidType doc ("struct " ++ record))

/-- A field that has to be there. -/
def required {α : Type} (fields : List (String × Json)) (name : String) (read : Reader α) :
    Except DecodeError α :=
  match fields.lookup name with
  | some doc => read doc
  | none => .error (.missingField name)

/-- A field that may be missing. -/
def optional {α : Type} (fields : List (String × Json)) (name : String) (read : Reader α) :
    Except DecodeError (Option α) :=
  match fields.lookup name with
  | some doc => Reader.option read doc
  | none => .ok none

/-- **A name that is not among the members is not found.** -/
theorem readMembers_lookup_eq_none {checks : FieldChecks} {members seen fields : List (String × Json)}
    {name : String} (h : readMembers checks members seen = .ok fields)
    (hmembers : members.lookup name = none) (hseen : seen.lookup name = none) :
    fields.lookup name = none := by
  induction members generalizing seen with
  | nil =>
    obtain rfl := Except.ok.inj h
    exact hseen
  | cons p rest ih =>
    obtain ⟨key, doc⟩ := p
    rw [Json.lookup_cons_eq_ite] at hmembers
    split at hmembers
    · exact absurd hmembers (by simp)
    · next hname =>
      unfold readMembers at h
      split at h
      · exact ih h hmembers hseen
      · split at h
        · exact absurd h (by simp)
        · rw [bind_eq_ok_iff] at h
          obtain ⟨_, -, h⟩ := h
          refine ih h hmembers ?_
          rw [Json.lookup_cons_eq_ite, if_neg hname]
          exact hseen

theorem readFields_object (record : String) (checks : FieldChecks)
    (members : List (String × Json)) :
    readFields record checks (.object members) = readMembers checks members [] := rfl

theorem field_eq_ok_iff {α : Type} (name : String) {read : Reader α} {doc : Json} :
    (field name read).2 doc = .ok () ↔ ∃ a, read doc = .ok a := by
  dsimp only [field]
  cases read doc with
  | error e => exact iff_of_false nofun (by rintro ⟨a, h⟩; cases h)
  | ok a => exact iff_of_true rfl ⟨a, rfl⟩

/-- A member of a field that has not been seen is read and kept. -/
theorem readMembers_cons {checks : FieldChecks} {key : String} {doc : Json}
    {rest seen : List (String × Json)} {check : Json → Except DecodeError Unit}
    (hcheck : checks.lookup key = some check) (hnew : seen.lookup key = none)
    (hok : check doc = .ok ()) :
    readMembers checks ((key, doc) :: rest) seen = readMembers checks rest ((key, doc) :: seen) := by
  rw [readMembers, hcheck]
  dsimp only
  rw [hnew, if_neg (by simp), hok]
  rfl

/-- Every known member of a map that was read passes its check. -/
theorem readMembers_check {checks : FieldChecks} {members seen fields : List (String × Json)}
    {key : String} {doc : Json} {check : Json → Except DecodeError Unit}
    (h : readMembers checks members seen = .ok fields) (hmem : (key, doc) ∈ members)
    (hcheck : checks.lookup key = some check) : check doc = .ok () := by
  induction members generalizing seen with
  | nil => exact absurd hmem List.not_mem_nil
  | cons p rest ih =>
    unfold readMembers at h
    cases hmem with
    | head =>
      rw [hcheck] at h
      dsimp only at h
      split at h
      · exact absurd h (by simp)
      · exact (bind_eq_ok_iff.mp h).choose_spec.1
    | tail _ hmem =>
      split at h
      · exact ih h hmem
      · split at h
        · exact absurd h (by simp)
        · obtain ⟨_, -, h⟩ := bind_eq_ok_iff.mp h
          exact ih h hmem

/-- Unknown members are skipped. -/
theorem readMembers_of_unknown {checks : FieldChecks} {members seen : List (String × Json)}
    (h : ∀ p ∈ members, checks.lookup p.1 = none) : readMembers checks members seen = .ok seen := by
  induction members with
  | nil => rfl
  | cons p rest ih =>
    obtain ⟨key, doc⟩ := p
    have hkey : checks.lookup key = none := h (key, doc) List.mem_cons_self
    unfold readMembers
    rw [hkey]
    exact ih fun q hq => h q (List.mem_cons_of_mem _ hq)

theorem required_eq_error {α : Type} {fields : List (String × Json)} {name : String}
    {read : Reader α} (h : fields.lookup name = none) :
    required fields name read = .error (.missingField name) := by
  unfold required
  rw [h]

/-- A number that is in range is read as itself. -/
theorem Reader.unsigned_ofNat_eq_ok {bits n m : ℕ}
    (h : Reader.unsigned bits (.ofNat n) = .ok m) : m = n := by
  dsimp only [Json.ofNat, Reader.unsigned] at h
  split at h
  · exact (Except.ok.inj h).symm
  · exact absurd h (by simp)

/-- A number that was read is in range. -/
theorem Reader.unsigned_eq_ok {bits n : ℕ} {doc : Json} (h : Reader.unsigned bits doc = .ok n) :
    n < 2 ^ bits := by
  unfold Reader.unsigned at h
  split at h
  · split at h
    · next hlt =>
      obtain rfl := Except.ok.inj h
      exact hlt
    · exact absurd h (by simp)
  · exact absurd h (by simp)

theorem required_unsigned_eq_ok {fields : List (String × Json)} {name : String} {bits n : ℕ}
    (h : required fields name (Reader.unsigned bits) = .ok n) : n < 2 ^ bits := by
  unfold required at h
  split at h
  · exact Reader.unsigned_eq_ok h
  · exact absurd h (by simp)

end Framework
