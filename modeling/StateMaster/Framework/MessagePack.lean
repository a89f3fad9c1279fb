import StateMaster.Framework.Serde

/-!
# A lawful binary format

MessagePack as it writes short documents: a value starts with a head byte that says what it is and,
for small numbers and short texts, arrays and maps, how much. The format has wider heads for what
does not fit; here the one byte it never uses, `0xc1`, introduces a longer form instead, in which
numbers have no bound, so that every document can be written. Reading undoes writing
(`read_write`) for as deep a nesting as is read, which makes this an instance of `Codec.Lawful`.
-/

namespace Framework

namespace MessagePack

abbrev Bytes := List UInt8

/-- What a value starts with: its kind, and its number or its size. -/
inductive Head where
  | null
  | bool (b : Bool)
  | posInt (n : ℕ)
  | negInt (n : ℕ)
  | float (bits : ℕ)
  | string (len : ℕ)
  | array (len : ℕ)
  | map (len : ℕ)
deriving DecidableEq, Repr

/-! ### Heads -/

/-- A number without a bound. -/
def writeUnary (n : ℕ) : Bytes := List.replicate n 1 ++ [0]

def readUnary : Bytes → Option (ℕ × Bytes)
  | [] => none
  | b :: rest => if b = 0 then some (0, rest) else (readUnary rest).map fun p => (p.1 + 1, p.2)

/-- The longer form of a head. -/
def writeLong (kind : UInt8) (n : ℕ) : Bytes := 0xc1 :: kind :: writeUnary n

def longHead (kind : UInt8) (n : ℕ) : Option Head :=
  if kind = 0 then some (.posInt n)
  else if kind = 1 then some (.negInt n)
  else if kind = 2 then some (.float n)
  else if kind = 3 then some (.string n)
  else if kind = 4 then some (.array n)
  else if kind = 5 then some (.map n)
  else none

/-- A head in one byte if it is small enough, in the longer form otherwise. -/
def writeSized (bound base : ℕ) (kind : UInt8) (n : ℕ) : Bytes :=
  if n < bound then [UInt8.ofNat (base + n)] else writeLong kind n

def writeHead : Head → Bytes
  | .null => [0xc0]
  | .bool false => [0xc2]
  | .bool true => [0xc3]
  | .posInt n => writeSized 0x80 0 0 n
  | .negInt n => writeLong 1 n
  | .float bits => writeLong 2 bits
  | .string len => writeSized 0x20 0xa0 3 len
  | .array len => writeSized 0x10 0x90 4 len
  | .map len => writeSized 0x10 0x80 5 len

/-- The head that a first byte, other than `0xc1`, stands for. -/
def byteHead (n : ℕ) : Option Head :=
  if n < 0x80 then some (.posInt n)
  else if n < 0x90 then some (.map (n - 0x80))
  else if n < 0xa0 then some (.array (n - 0x90))
  else if n < 0xc0 then some (.string (n - 0xa0))
  else if n = 0xc0 then some .null
  else if n = 0xc2 then some (.bool false)
  else if n = 0xc3 then some (.bool true)
  else none

def readHead : Bytes → Option (Head × Bytes)
  | [] => none
  | b :: rest =>
    if b = 0xc1 then
      match rest with
      | [] => none
      | kind :: rest => (readUnary rest).bind fun p => (longHead kind p.1).map fun h => (h, p.2)
    else (byteHead b.toNat).map fun h => (h, rest)

theorem readUnary_write (n : ℕ) (rest : Bytes) :
    readUnary (writeUnary n ++ rest) = some (n, rest) := by
  unfold writeUnary
  induction n with
  | zero => rfl
  | succ n ih =>
    rw [List.replicate_succ, List.cons_append, List.cons_append, readUnary, if_neg (by decide), ih]
    rfl

theorem readHead_long {kind : UInt8} {n : ℕ} {head : Head} (h : longHead kind n = some head)
    (rest : Bytes) : readHead (writeLong kind n ++ rest) = some (head, rest) := by
  unfold writeLong
  rw [List.cons_append, List.cons_append, readHead, if_pos rfl, readUnary_write, Option.bind_some, h]
  rfl

/-- A sized head is read back, in either form. -/
theorem readHead_sized {bound base : ℕ} {kind : UInt8} {n : ℕ} {head : Head}
    (hlong : longHead kind n = some head)
    (hbyte : n < bound → base + n < 256 ∧ base + n ≠ 0xc1 ∧ byteHead (base + n) = some head)
    (rest : Bytes) : readHead (writeSized bound base kind n ++ rest) = some (head, rest) := by
  unfold writeSized
  split
  · next hn =>
    obtain ⟨hlt, hne, hhead⟩ := hbyte hn
    have htoNat : (UInt8.ofNat (base + n)).toNat = base + n := by
      rw [UInt8.toNat_ofNat', Nat.mod_eq_of_lt hlt]
    have hesc : UInt8.ofNat (base + n) ≠ 0xc1 := fun h => hne (by
      have := congrArg UInt8.toNat h
      rwa [htoNat] at this)
    rw [List.singleton_append, readHead.eq_def]
    dsimp only
    rw [if_neg hesc, htoNat, hhead]
    rfl
  · exact readHead_long hlong rest

theorem readHead_write (head : Head) (rest : Bytes) :
    readHead (writeHead head ++ rest) = some (head, rest) := by
  cases head with
  | null => rfl
  | bool b => cases b <;> rfl
  | posInt n =>
    refine readHead_sized rfl (fun hn => ⟨by omega, by omega, ?_⟩) rest
    rw [byteHead, if_pos (by omega), Nat.zero_add]
  | negInt n => exact readHead_long rfl rest
  | float bits => exact readHead_long rfl rest
  | string len =>
    refine readHead_sized rfl (fun hn => ⟨by omega, by omega, ?_⟩) rest
    rw [byteHead, if_neg (by omega), if_neg (by omega), if_neg (by omega), if_pos (by omega),
      Nat.add_sub_cancel_left]
  | array len =>
    refine readHead_sized rfl (fun hn => ⟨by omega, by omega, ?_⟩) rest
    rw [byteHead, if_neg (by omega), if_neg (by omega), if_pos (by omega),
      Nat.add_sub_cancel_left]
  | map len =>
    refine readHead_sized rfl (fun hn => ⟨by omega, by omega, ?_⟩) rest
    rw [byteHead, if_neg (by omega), if_pos (by omega), Nat.add_sub_cancel_left]

theorem writeHead_length_pos (head : Head) : 0 < (writeHead head).length := by
  have hsized : ∀ bound base kind n, 0 < (writeSized bound base kind n).length := by
    intro bound base kind n
    unfold writeSized
    split
    · exact Nat.zero_lt_one
    · exact Nat.succ_pos _
  cases head with
  | null => exact Nat.zero_lt_one
  | bool b => cases b <;> exact Nat.zero_lt_one
  | negInt n => exact Nat.succ_pos _
  | float bits => exact Nat.succ_pos _
  | posInt n => exact hsized ..
  | string len => exact hsized ..
  | array len => exact hsized ..
  | map len => exact hsized ..

/-! ### Texts and sequences -/

def textBytes (s : String) : Bytes := s.toUTF8.data.toList

def writeText (s : String) : Bytes := writeHead (.string (textBytes s).length) ++ textBytes s

/-- The text in the next `len` bytes. -/
def readText (len : ℕ) (bytes : Bytes) : Option (String × Bytes) :=
  (String.fromUTF8? ⟨(bytes.take len).toArray⟩).map fun s => (s, bytes.drop len)

/-- `len` values one after the other. -/
def readMany {α : Type} (item : Bytes → Option (α × Bytes)) : ℕ → Bytes → Option (List α × Bytes)
  | 0, bytes => some ([], bytes)
  | len + 1, bytes =>
    (item bytes).bind fun p => (readMany item len p.2).map fun q => (p.1 :: q.1, q.2)

/-- A name and a value. -/
def readMember (item : Bytes → Option (Json × Bytes)) (bytes : Bytes) :
    Option ((String × Json) × Bytes) :=
  (readHead bytes).bind fun
    | (.string len, rest) =>
      (readText len rest).bind fun p => (item p.2).map fun q => ((p.1, q.1), q.2)
    | _ => none

theorem readText_textBytes (s : String) (rest : Bytes) :
    readText (textBytes s).length (textBytes s ++ rest) = some (s, rest) := by
  unfold readText
  rw [List.take_left, List.drop_left]
  have hbytes : (⟨(textBytes s).toArray⟩ : ByteArray) = s.toUTF8 := by simp [textBytes]
  have hread : String.fromUTF8? s.toUTF8 = some s := by
    simp only [String.fromUTF8?, Option.dite_none_right_eq_some]
    exact ⟨s.isValidUTF8, rfl⟩
  rw [hbytes, hread]
  rfl

/-! ### Documents -/

mutual

def write : Json → Bytes
  | .null => writeHead .null
  | .bool b => writeHead (.bool b)
  | .number (.posInt n) => writeHead (.posInt n)
  | .number (.negInt n) => writeHead (.negInt n)
  | .number (.float bits) => writeHead (.float bits)
  | .string s => writeText s
  | .array items => writeHead (.array items.length) ++ writeItems items
  | .object members => writeHead (.map members.length) ++ writeMembers members

def writeItems : List Json → Bytes
  | [] => []
  | d :: rest => write d ++ writeItems rest

def writeMembers : List (String × Json) → Bytes
  | [] => []
  | (k, d) :: rest => writeText k ++ (write d ++ writeMembers rest)

end

/-- Every document starts with a head. -/
theorem exists_write_eq (d : Json) : ∃ head body, write d = writeHead head ++ body := by
  cases d with
  | number n =>
    cases n with
    | posInt n => exact ⟨.posInt n, [], by rw [write, List.append_nil]⟩
    | negInt n => exact ⟨.negInt n, [], by rw [write, List.append_nil]⟩
    | float bits => exact ⟨.float bits, [], by rw [write, List.append_nil]⟩
  | null => exact ⟨.null, [], by rw [write, List.append_nil]⟩
  | bool b => exact ⟨.bool b, [], by rw [write, List.append_nil]⟩
  | string s => exact ⟨.string (textBytes s).length, textBytes s, by rw [write, writeText]⟩
  | array items => exact ⟨.array items.length, writeItems items, by rw [write]⟩
  | object members => exact ⟨.map members.length, writeMembers members, by rw [write]⟩

theorem write_length_pos (d : Json) : 0 < (write d).length := by
  obtain ⟨head, body, hd⟩ := exists_write_eq d
  rw [hd, List.length_append]
  exact Nat.add_pos_left (writeHead_length_pos head) _

/-- An array takes a byte for each of its items. -/
theorem length_le_write_array (items : List Json) : items.length ≤ (write (.array items)).length := by
  have hitems : items.length ≤ (writeItems items).length := by
    induction items with
    | nil => exact Nat.zero_le _
    | cons d items ih =>
      have hpos := write_length_pos d
      rw [writeItems, List.length_append, List.length_cons]
      omega
  rw [write, List.length_append]
  omega

/-- A map takes the bytes of its values. -/
theorem length_write_le_object {members : List (String × Json)} {name : String} {d : Json}
    (h : (name, d) ∈ members) : (write d).length ≤ (write (.object members)).length := by
  have hmembers : (write d).length ≤ (writeMembers members).length := by
    induction members with
    | nil => exact absurd h List.not_mem_nil
    | cons p members ih =>
      obtain ⟨k, v⟩ := p
      rw [writeMembers, List.length_append, List.length_append]
      rcases List.mem_cons.mp h with heq | hmem
      · obtain ⟨rfl, rfl⟩ := Prod.mk.inj heq
        omega
      · have := ih hmem
        omega
  rw [write, List.length_append]
  omega

/-- Reading; the fuel bounds the depth, so the number of bytes is enough of it. -/
def read : ℕ → Bytes → Option (Json × Bytes)
  | 0, _ => none
  | fuel + 1, bytes =>
    (readHead bytes).bind fun
      | (.null, rest) => some (.null, rest)
      | (.bool b, rest) => some (.bool b, rest)
      | (.posInt n, rest) => some (.number (.posInt n), rest)
      | (.negInt n, rest) => some (.number (.negInt n), rest)
      | (.float bits, rest) => some (.number (.float bits), rest)
      | (.string len, rest) => (readText len rest).map fun p => (.string p.1, p.2)
      | (.array len, rest) => (readMany (read fuel) len rest).map fun p => (.array p.1, p.2)
      | (.map len, rest) =>
        (readMany (readMember (read fuel)) len rest).map fun p => (.object p.1, p.2)

theorem readMember_write {item : Bytes → Option (Json × Bytes)} {k : String} {d : Json}
    {rest : Bytes} (h : item (write d ++ rest) = some (d, rest)) :
    readMember item (writeText k ++ (write d ++ rest)) = some ((k, d), rest) := by
  unfold readMember writeText
  rw [List.append_assoc, readHead_write, Option.bind_some]
  dsimp only
  rw [readText_textBytes, Option.bind_some, h]
  rfl

/-- A value takes at least the byte of its head. -/
theorem exists_fuel_of_head {head : Head} {fuel : ℕ} (h : (writeHead head).length ≤ fuel) :
    ∃ n, fuel = n + 1 := by
  have hpos := writeHead_length_pos head
  exact ⟨fuel - 1, by omega⟩

theorem exists_fuel {head : Head} {body : Bytes} {fuel : ℕ}
    (h : (writeHead head ++ body).length ≤ fuel) : ∃ n, fuel = n + 1 ∧ body.length ≤ n := by
  have hpos := writeHead_length_pos head
  rw [List.length_append] at h
  exact ⟨fuel - 1, by omega, by omega⟩

mutual

/-- **Reading undoes writing**, whatever follows. -/
theorem read_write (d : Json) (fuel : ℕ) (rest : Bytes) (h : (write d).length ≤ fuel) :
    read fuel (write d ++ rest) = some (d, rest) := by
  -- Every value starts with a head; what follows it depends on the kind.
  cases d with
  | null =>
    rw [write] at h ⊢
    obtain ⟨n, rfl⟩ := exists_fuel_of_head h
    unfold read
    rw [readHead_write, Option.bind_some]
  | bool b =>
    rw [write] at h ⊢
    obtain ⟨n, rfl⟩ := exists_fuel_of_head h
    unfold read
    rw [readHead_write, Option.bind_some]
  | number n =>
    cases n with
    | posInt n =>
      rw [write] at h ⊢
      obtain ⟨n, rfl⟩ := exists_fuel_of_head h
      unfold read
      rw [readHead_write, Option.bind_some]
    | negInt n =>
      rw [write] at h ⊢
      obtain ⟨n, rfl⟩ := exists_fuel_of_head h
      unfold read
      rw [readHead_write, Option.bind_some]
    | float bits =>
      rw [write] at h ⊢
      obtain ⟨n, rfl⟩ := exists_fuel_of_head h
      unfold read
      rw [readHead_write, Option.bind_some]
  | string s =>
    obtain ⟨n, rfl, -⟩ := exists_fuel h
    unfold write writeText read
    rw [List.append_assoc, readHead_write, Option.bind_some]
    dsimp only
    rw [readText_textBytes]
    rfl
  | array items =>
    rw [write] at h ⊢
    obtain ⟨n, rfl, hn⟩ := exists_fuel h
    unfold read
    rw [List.append_assoc, readHead_write, Option.bind_some]
    dsimp only
    rw [readItems_write items n rest hn]
    rfl
  | object members =>
    rw [write] at h ⊢
    obtain ⟨n, rfl, hn⟩ := exists_fuel h
    unfold read
    rw [List.append_assoc, readHead_write, Option.bind_some]
    dsimp only
    rw [readMembers_write members n rest hn]
    rfl

/-- The items of an array are read back. -/
theorem readItems_write (items : List Json) (fuel : ℕ) (rest : Bytes)
    (h : (writeItems items).length ≤ fuel) :
    readMany (read fuel) items.length (writeItems items ++ rest) = some (items, rest) := by
  cases items with
  | nil => rfl
  | cons d items =>
    rw [writeItems, List.length_append] at h
    rw [writeItems, List.append_assoc, List.length_cons, readMany,
      read_write d fuel _ (by omega), Option.bind_some, readItems_write items fuel rest (by omega)]
    rfl

/-- The members of a map are read back. -/
theorem readMembers_write (members : List (String × Json)) (fuel : ℕ) (rest : Bytes)
    (h : (writeMembers members).length ≤ fuel) :
    readMany (readMember (read fuel)) members.length (writeMembers members ++ rest)
      = some (members, rest) := by
  cases members with
  | nil => rfl
  | cons p members =>
    obtain ⟨k, d⟩ := p
    rw [writeMembers, List.length_append, List.length_append] at h
    rw [writeMembers, List.append_assoc, List.append_assoc, List.length_cons, readMany,
      readMember_write (read_write d fuel _ (by omega)), Option.bind_some,
      readMembers_write members fuel rest (by omega)]
    rfl

end

/-! ### The codec -/

/-- The text of an error. -/
def render : DecodeError → String
  | .malformed reason => reason
  | .invalidType _ expected => "invalid type, expected " ++ expected
  | .invalidValue _ expected => "invalid value, expected " ++ expected
  | .invalidLength length expected =>
    "invalid length " ++ toString length ++ ", expected " ++ expected
  | .missingField name => "missing field `" ++ name ++ "`"
  | .duplicateField name => "duplicate field `" ++ name ++ "`"
  | .custom reason => reason

def codec : Codec where
  toVecNamed := write
  fromSlice bytes :=
    match read (bytes.length + 1) bytes with
    | some (doc, _) =>
      if doc.depth ≤ nestingLimit then .ok doc else .error (.malformed "depth limit exceeded")
    | none => .error (.malformed "invalid marker or unexpected end")
  render := render

theorem fromSlice_write (doc : Json) :
    codec.fromSlice (write doc)
      = if doc.depth ≤ nestingLimit then .ok doc
        else .error (.malformed "depth limit exceeded") := by
  have h := read_write doc ((write doc).length + 1) [] (Nat.le_succ _)
  rw [List.append_nil] at h
  simp only [codec, h]

/-- **The format keeps the promises of `Codec.Lawful`.** -/
theorem codec_lawful : codec.Lawful where
  round_trip doc hdepth := (fromSlice_write doc).trans (if_pos hdepth)
  too_deep doc hdepth := ⟨_, (fromSlice_write doc).trans (if_neg hdepth.not_ge)⟩
  fixint byte rest hbyte := by
    have hesc : byte ≠ 0xc1 := by
      rintro rfl
      exact absurd hbyte (by decide)
    have hhead : readHead (byte :: rest) = some (.posInt byte.toNat, rest) := by
      rw [readHead.eq_def]
      dsimp only
      rw [if_neg hesc, byteHead, if_pos hbyte]
      rfl
    have hflat : (Json.number (.posInt byte.toNat)).depth ≤ nestingLimit := Nat.zero_le _
    simp only [codec, read, hhead, Option.bind_some, if_pos hflat]

end MessagePack

end Framework
