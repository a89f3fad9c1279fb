import StateMaster.Framework.Lists
import StateMaster.Framework.Serde

/-!
# Records read back

A derived writer writes a record as the map of its fields. The derived reader takes the record back
from this map, and also from a map that has the same members in another order and others among them:
unknown members are skipped, so a writer may add fields that an older reader does not know.

* `Written` — the members are those of a record whose fields all pass their checks;
* `Extends` — the members of a record in any order, among others;
* `readFields_extends` — the reader finds the members of the record in every such map;
* `Reader.option_ofOption`, `Reader.list_map` and the like — values read back, by their shape.
-/

namespace Framework

/-- The members of a map. -/
def Json.members : Json → List (String × Json)
  | .object members => members
  | _ => []

/-- The members a record is written as: one for each field, in the order of the fields, that will do
for it. -/
def Written (checks : FieldChecks) (members : List (String × Json)) : Prop :=
  List.Forall₂ (fun c p => c.1 = p.1 ∧ c.2 p.2 = .ok ()) checks members

/-- The members of a record in any order, among others that the record does not have. -/
def Extends (members members' : List (String × Json)) : Prop :=
  (members'.filter fun p => decide (p.1 ∈ members.map Prod.fst)).Perm members

instance (members members' : List (String × Json)) : Decidable (Extends members members') :=
  inferInstanceAs (Decidable (List.Perm _ _))

theorem Extends.refl (members : List (String × Json)) : Extends members members := by
  have hall : (members.filter fun p => decide (p.1 ∈ members.map Prod.fst)) = members :=
    List.filter_eq_self.mpr fun p hp => decide_eq_true (List.mem_map_of_mem hp)
  unfold Extends
  rw [hall]

/-! ### Lookups -/

/-- A field that is there is found by its name if no name comes twice. -/
theorem lookup_eq_some_iff_mem {β : Type} {l : List (String × β)} (hnodup : (l.map Prod.fst).Nodup)
    {name : String} {b : β} : l.lookup name = some b ↔ (name, b) ∈ l := by
  induction l with
  | nil => simp
  | cons p l ih =>
    obtain ⟨key, b'⟩ := p
    obtain ⟨hnot, hnodup⟩ := List.nodup_cons.mp (List.map_cons ▸ hnodup)
    rw [List.lookup_cons, List.mem_cons, Prod.mk.injEq]
    by_cases hkey : name = key
    · subst hkey
      rw [beq_self_eq_true]
      -- the rest has no member of this name
      have hrest : (name, b) ∉ l := fun hmem => hnot (List.mem_map.mpr ⟨_, hmem, rfl⟩)
      simp [hrest, eq_comm]
    · rw [beq_false_of_ne hkey, ih hnodup]
      simp [hkey]

theorem lookup_perm {β : Type} {l l' : List (String × β)} (hnodup : (l.map Prod.fst).Nodup)
    (hperm : l'.Perm l) (name : String) : l'.lookup name = l.lookup name := by
  have hnodup' : (l'.map Prod.fst).Nodup := (hperm.map Prod.fst).nodup_iff.mpr hnodup
  ext b
  rw [lookup_eq_some_iff_mem hnodup, lookup_eq_some_iff_mem hnodup', hperm.mem_iff]

theorem lookup_eq_none_of_not_mem {β : Type} {l : List (String × β)} {name : String}
    (h : name ∉ l.map Prod.fst) : l.lookup name = none := by
  refine List.lookup_eq_none_iff.mpr fun p hp => bne_iff_ne.mpr fun heq => h ?_
  exact List.mem_map.mpr ⟨p, hp, heq.symm⟩

/-! ### The loop of the reader -/

/-- Unknown members might as well not be there. -/
theorem readMembers_filter (checks : FieldChecks) {known : String × Json → Bool}
    (hknown : ∀ p, known p = false → checks.lookup p.1 = none) (members seen : List (String × Json)) :
    readMembers checks members seen = readMembers checks (members.filter known) seen := by
  induction members generalizing seen with
  | nil => rfl
  | cons p rest ih =>
    obtain ⟨key, doc⟩ := p
    by_cases hp : known (key, doc) = true
    · rw [List.filter_cons_of_pos hp]
      unfold readMembers
      split
      · exact ih seen
      · split
        · rfl
        · exact congrArg _ (funext fun _ => ih _)
    · rw [List.filter_cons_of_neg hp, ← ih seen]
      rw [readMembers, hknown (key, doc) (Bool.eq_false_iff.mpr hp)]

/-- Members that are known, differ in their names and pass their checks are all kept. -/
theorem readMembers_eq {checks : FieldChecks} {members seen : List (String × Json)}
    (hok : ∀ p ∈ members, ∃ check, checks.lookup p.1 = some check ∧ check p.2 = .ok ())
    (hnodup : ((members ++ seen).map Prod.fst).Nodup) :
    readMembers checks members seen = .ok (members.reverse ++ seen) := by
  induction members generalizing seen with
  | nil => rfl
  | cons p rest ih =>
    obtain ⟨key, doc⟩ := p
    obtain ⟨check, hcheck, hdoc⟩ := hok (key, doc) List.mem_cons_self
    have hnew : seen.lookup key = none := by
      refine lookup_eq_none_of_not_mem fun hmem => ?_
      rw [List.cons_append, List.map_cons, List.map_append] at hnodup
      exact (List.nodup_cons.mp hnodup).1 (List.mem_append_right _ hmem)
    rw [readMembers_cons hcheck hnew hdoc, ih fun q hq => hok q (List.mem_cons_of_mem _ hq)]
    · rw [List.reverse_cons, List.append_assoc]
      rfl
    · exact ((List.perm_middle.map Prod.fst).nodup_iff).mpr hnodup

theorem Written.names {checks : FieldChecks} {members : List (String × Json)}
    (h : Written checks members) : checks.map Prod.fst = members.map Prod.fst := by
  induction h with
  | nil => rfl
  | cons hhead _ ih => rw [List.map_cons, List.map_cons, hhead.1, ih]

/-- Every member of a written record passes the check of its name. -/
theorem Written.check {checks : FieldChecks} {members : List (String × Json)}
    (h : Written checks members) (hnames : (checks.map Prod.fst).Nodup) {p : String × Json}
    (hp : p ∈ members) : ∃ check, checks.lookup p.1 = some check ∧ check p.2 = .ok () := by
  obtain ⟨c, hc, hname, hok⟩ := exists_of_forall₂_mem h.flip hp
  refine ⟨c.2, (lookup_eq_some_iff_mem hnames).mpr ?_, hok⟩
  rw [← hname]
  exact hc

/-- **The members of a record are found**, in whatever order they come and among whatever others. -/
theorem readFields_extends {checks : FieldChecks} {members members' : List (String × Json)}
    (hnames : (checks.map Prod.fst).Nodup) (hwritten : Written checks members)
    (hext : Extends members members') (record : String) :
    ∃ fields, readFields record checks (.object members') = .ok fields ∧
      ∀ name, fields.lookup name = members.lookup name := by
  have hnodup : (members.map Prod.fst).Nodup := hwritten.names ▸ hnames
  -- what is not a member of the record is no field of it
  have hunknown : ∀ p : String × Json, decide (p.1 ∈ members.map Prod.fst) = false →
      checks.lookup p.1 = none := by
    intro p hp
    refine lookup_eq_none_of_not_mem ?_
    rw [hwritten.names]
    exact of_decide_eq_false hp
  have hkept : ((members'.filter fun p => decide (p.1 ∈ members.map Prod.fst)).map Prod.fst).Nodup :=
    (hext.map Prod.fst).nodup_iff.mpr hnodup
  refine ⟨(members'.filter fun p => decide (p.1 ∈ members.map Prod.fst)).reverse, ?_, fun name => ?_⟩
  · rw [readFields_object, readMembers_filter checks hunknown, readMembers_eq, List.append_nil]
    · exact fun p hp => hwritten.check hnames (hext.mem_iff.mp hp)
    · rw [List.append_nil]
      exact hkept
  · exact lookup_perm hnodup ((List.reverse_perm _).trans hext) name

/-- What is read of the fields found is what is read of the members. -/
theorem required_congr {α : Type} {fields members : List (String × Json)}
    (h : ∀ name, fields.lookup name = members.lookup name) (name : String) (read : Reader α) :
    required fields name read = required members name read := by
  unfold required
  rw [h]

theorem optional_congr {α : Type} {fields members : List (String × Json)}
    (h : ∀ name, fields.lookup name = members.lookup name) (name : String) (read : Reader α) :
    optional fields name read = optional members name read := by
  unfold optional
  rw [h]

/-- **A derived reader reads a written record back.** The rest of the reader looks at the fields by
their names only. -/
theorem read_extends {α : Type} {checks : FieldChecks} {members members' : List (String × Json)}
    {rest : List (String × Json) → Except DecodeError α} {a : α}
    (hnames : (checks.map Prod.fst).Nodup) (hwritten : Written checks members)
    (hext : Extends members members') (record : String)
    (hrest : ∀ fields : List (String × Json),
      (∀ name, fields.lookup name = members.lookup name) → rest fields = .ok a) :
    (readFields record checks (.object members') >>= rest) = .ok a := by
  obtain ⟨fields, hfields, hlookup⟩ := readFields_extends hnames hwritten hext record
  rw [hfields]
  exact hrest fields hlookup

/-! ### Values read back -/

theorem field_ok {α : Type} {name : String} {read : Reader α} {doc : Json} {a : α}
    (h : read doc = .ok a) : (field name read).1 = name ∧ (field name read).2 doc = .ok () :=
  ⟨rfl, (field_eq_ok_iff name).mpr ⟨a, h⟩⟩

namespace Reader

variable {α : Type}

theorem unsigned_ofNat {bits n : ℕ} (h : n < 2 ^ bits) : unsigned bits (.ofNat n) = .ok n := by
  dsimp only [Json.ofNat, unsigned]
  rw [if_pos h]

theorem option_ofOption {read : Reader α} {write : α → Json} {o : Option α}
    (hnull : ∀ a, o = some a → write a ≠ .null) (hread : ∀ a, o = some a → read (write a) = .ok a) :
    option read (Json.ofOption write o) = .ok o := by
  cases o with
  | none => rfl
  | some a =>
    have hread := hread a rfl
    have hnull := hnull a rfl
    dsimp only [Json.ofOption]
    unfold option
    split
    · exact absurd ‹_› hnull
    · rw [hread]
      rfl

theorem option_string (o : Option String) : option string (.ofOption .string o) = .ok o :=
  option_ofOption (by simp) fun _ _ => rfl

theorem option_unsigned {bits : ℕ} {o : Option ℕ} (h : ∀ n, o = some n → n < 2 ^ bits) :
    option (unsigned bits) (.ofOption .ofNat o) = .ok o :=
  option_ofOption (by simp [Json.ofNat]) fun n hn => unsigned_ofNat (h n hn)

theorem mapM_eq_ok {write : α → Json} {read : Reader α} {f : α → α} {items : List α}
    (h : ∀ a ∈ items, read (write a) = .ok (f a)) :
    (items.map write).mapM read = .ok (items.map f) := by
  induction items with
  | nil => rfl
  | cons a items ih =>
    rw [List.map_cons, List.mapM_cons, h a List.mem_cons_self,
      ih fun b hb => h b (List.mem_cons_of_mem _ hb)]
    rfl

/-- A list of values, each of which is read back as `f` says. -/
theorem list_map {write : α → Json} {read : Reader α} {f : α → α} {items : List α}
    (h : ∀ a ∈ items, read (write a) = .ok (f a)) :
    list read (.array (items.map write)) = .ok (items.map f) :=
  mapM_eq_ok h

theorem list_strings (items : List String) :
    list string (.array (items.map .string)) = .ok items := by
  have h : list string (.array (items.map .string)) = .ok (items.map id) := list_map fun _ _ => rfl
  rwa [List.map_id] at h

end Reader

end Framework
