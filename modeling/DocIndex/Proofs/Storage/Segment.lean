/-
Segments and their records read back, one layout at a time.

`Reads` says that a reader takes a value off the front of bytes and leaves what follows, so
that layouts put one after the other are read one after the other.  The one loss is that of
integers, which are kept as 64-bit words: `narrowed` is what becomes of a value.  Everything
that is framed by a length needs the length to fit eight bytes, and since every part of a
record is shorter than the record, one bound for the whole is enough.

The header of a segment comes back because each of its numbers fits four bytes, the checksum is that
of the very body, and the body is unpacked and read as records.
-/
import DocIndex.Proofs.Codec.Packing
import DocIndex.Storage.Segment

namespace DocIndex

/-! ### Integers as words -/

/-- The value as it is kept: an integer as a signed 64-bit word. -/
def FieldValue.narrowed : FieldValue → FieldValue
  | .long n => .long (n.bmod 0x10000000000000000)
  | value => value

/-- The field as it is kept. -/
def Field.narrowed (field : Field) : Field := { field with value := field.value.narrowed }

/-- The change as it is kept. -/
def Change.narrowed : Change → Change
  | .add document => .add (document.map Field.narrowed)
  | .deleteTerm field term => .deleteTerm field term

/-- A value whose integer, if it is one, is a signed 64-bit word. -/
def FieldValue.IsWord : FieldValue → Prop
  | .long n => -0x8000000000000000 ≤ n ∧ n < 0x8000000000000000
  | _ => True

/-- A change all of whose integers are words. -/
def Change.HoldsWords : Change → Prop
  | .add document => ∀ field ∈ document, field.value.IsWord
  | .deleteTerm _ _ => True

/-- Nothing but integers that are no words is lost. -/
theorem FieldValue.narrowed_eq_self {value : FieldValue} (h : value.IsWord) :
    value.narrowed = value := by
  cases value with
  | long n =>
      obtain ⟨hlow, hhigh⟩ := h
      have hword : n.bmod 0x10000000000000000 = n := Int.bmod_eq_of_le_mul_two (by omega) (by omega)
      rw [narrowed, hword]
  | term value => rfl
  | text value analyzer => rfl
  | double x => rfl
  | stored bytes => rfl

theorem Change.narrowed_eq_self {change : Change} (h : change.HoldsWords) :
    change.narrowed = change := by
  cases change with
  | deleteTerm field term => rfl
  | add document =>
      have hfield : ∀ field ∈ document, field.narrowed = id field := fun field hfield =>
        congrArg (fun value => { field with value }) (FieldValue.narrowed_eq_self (h field hfield))
      rw [narrowed, List.map_congr_left hfield, List.map_id]

theorem FieldValue.narrowed_narrowed (value : FieldValue) :
    value.narrowed.narrowed = value.narrowed := by
  cases value with
  | long n => exact congrArg FieldValue.long Int.bmod_bmod
  | term value => rfl
  | text value analyzer => rfl
  | double x => rfl
  | stored bytes => rfl

/-- What is kept of a change is kept as it is. -/
theorem Change.narrowed_narrowed (change : Change) :
    change.narrowed.narrowed = change.narrowed := by
  cases change with
  | deleteTerm field term => rfl
  | add document =>
      have hfield : Field.narrowed ∘ Field.narrowed = Field.narrowed := funext fun field =>
        congrArg (fun value => { field with value }) field.value.narrowed_narrowed
      rw [narrowed, narrowed, List.map_map, hfield]

namespace Storage.Record

/-- The reader takes the value off the front of the bytes and leaves what follows. -/
def Reads {α : Type} (read : Reader α) (bytes : Bytes) (value : α) : Prop :=
  ∀ rest, read (bytes ++ rest) = some (value, rest)

/-- How long something framed by a length may be. -/
def limit : Nat := 256 ^ 8

/-! ### Numbers, texts and truth values -/

theorem reads_nat (width n : Nat) :
    Reads (readNat width) (Bytes.littleEndian width n) (n % 256 ^ width) := fun rest => by
  rw [readNat, Bytes.splitAt?_append (Bytes.length_littleEndian width n), Option.map_some]
  simp only [Bytes.ofLittleEndian_littleEndian]

theorem reads_nat_of_lt {width n : Nat} (h : n < 256 ^ width) :
    Reads (readNat width) (Bytes.littleEndian width n) n := by
  have hread := reads_nat width n
  rwa [Nat.mod_eq_of_lt h] at hread

theorem reads_length {n : Nat} (h : n < limit) : Reads readLength (writeLength n) n :=
  reads_nat_of_lt h

theorem reads_choice {n : Nat} (h : n < 256) : Reads readChoice (writeChoice n) n :=
  reads_nat_of_lt (Nat.lt_of_lt_of_le h (by decide))

theorem reads_bytes {bytes : Bytes} (h : bytes.length < limit) :
    Reads readBytes (writeBytes bytes) bytes := fun rest => by
  rw [writeBytes, List.append_assoc, readBytes, reads_length h]
  exact Bytes.splitAt?_append rfl rest

theorem reads_text {text : String} (h : (Bytes.ofText text).length < limit) :
    Reads readText (writeText text) text := fun rest => by
  rw [readText, writeText, reads_bytes h]
  simp

theorem reads_bool (b : Bool) : Reads readBool (writeBool b) b := fun rest => by
  cases b <;> rfl

/-- An integer comes back as a word. -/
theorem reads_int (n : Int) : Reads readInt (writeInt n) (n.bmod 0x10000000000000000) := by
  intro rest
  have hrange : (n % 0x10000000000000000).toNat < 256 ^ 8 := by omega
  rw [readInt, writeInt, reads_nat_of_lt hrange]
  simp only [Option.map_some, Int.bmod_def]
  congr 2
  split <;> split <;> omega

theorem reads_double (x : Double) : Reads readDouble (writeDouble x) x := fun rest => by
  rw [readDouble, writeDouble, reads_nat_of_lt (Nat.lt_of_lt_of_le x.bits.toNat_lt (by decide))]
  simp

/-! ### Lists -/

section Lists

variable {α : Type} {read : Reader α} {write : α → Bytes} {kept : α → α}

theorem reads_items : ∀ {items : List α},
    (∀ item ∈ items, Reads read (write item) (kept item)) →
    Reads (readItems read items.length) (writeItems write items) (items.map kept)
  | [], _, _ => rfl
  | item :: rest, h, more => by
      have hitem := h item List.mem_cons_self
      have hrest := reads_items fun other hother => h other (List.mem_cons_of_mem _ hother)
      simp only [writeItems, List.flatMap_cons, List.length_cons, List.append_assoc, readItems]
      rw [hitem]
      simp only [writeItems] at hrest
      simp only [hrest more, Option.map_some, List.map_cons]

theorem length_le_writeItems {items : List α} {item : α} (h : item ∈ items) :
    (write item).length ≤ (writeItems write items).length := by
  obtain ⟨before, after, rfl⟩ := List.append_of_mem h
  simp only [writeItems, List.flatMap_append, List.flatMap_cons, List.length_append]
  omega

/-- There are no more items than bytes, if no item is empty. -/
theorem count_le_writeItems {items : List α} (h : ∀ item ∈ items, 0 < (write item).length) :
    items.length ≤ (writeItems write items).length := by
  induction items with
  | nil => exact Nat.le_refl 0
  | cons item rest ih =>
      have hitem := h item List.mem_cons_self
      have hrest := ih fun other hother => h other (List.mem_cons_of_mem _ hother)
      simp only [writeItems, List.flatMap_cons, List.length_cons, List.length_append] at hrest ⊢
      omega

/-- A list whose text is not too long is read item by item. -/
theorem reads_list {items : List α} (hlimit : (writeList write items).length < limit)
    (hsome : ∀ item ∈ items, 0 < (write item).length)
    (hread : ∀ item ∈ items, (write item).length < limit → Reads read (write item) (kept item)) :
    Reads (readList read) (writeList write items) (items.map kept) := by
  intro rest
  have hcount := count_le_writeItems hsome
  have htotal : (writeItems write items).length < limit := by
    rw [writeList, List.length_append] at hlimit
    omega
  have hitems : ∀ item ∈ items, Reads read (write item) (kept item) := fun item hitem =>
    hread item hitem (Nat.lt_of_le_of_lt (length_le_writeItems hitem) htotal)
  rw [writeList, List.append_assoc, readList, reads_length (Nat.lt_of_le_of_lt hcount htotal)]
  exact reads_items hitems rest

end Lists

/-! ### Fields and changes -/

theorem length_writeBytes (bytes : Bytes) : (writeBytes bytes).length = 8 + bytes.length := by
  rw [writeBytes, List.length_append, writeLength, Bytes.length_littleEndian]

theorem length_writeText (text : String) :
    (writeText text).length = 8 + (Bytes.ofText text).length :=
  length_writeBytes _

theorem reads_value {value : FieldValue} (h : (writeValue value).length < limit) :
    Reads readValue (writeValue value) value.narrowed := by
  intro rest
  cases value with
  | term value =>
      have htext : (Bytes.ofText value).length < limit := by
        rw [writeValue, List.length_append, length_writeText] at h
        omega
      simp [readValue, writeValue, reads_choice (by decide : 0 < 256) _, reads_text htext _,
        FieldValue.narrowed]
  | text value analyzer =>
      have htexts : (Bytes.ofText value).length < limit ∧
          (Bytes.ofText analyzer).length < limit := by
        rw [writeValue, List.length_append, List.length_append, length_writeText,
          length_writeText] at h
        omega
      simp [readValue, writeValue, reads_choice (by decide : 1 < 256) _, reads_text htexts.1 _,
        reads_text htexts.2 _, FieldValue.narrowed]
  | long n =>
      simp [readValue, writeValue, reads_choice (by decide : 2 < 256) _, reads_int n _,
        FieldValue.narrowed]
  | double x =>
      simp [readValue, writeValue, reads_choice (by decide : 3 < 256) _, reads_double x _,
        FieldValue.narrowed]
  | stored bytes =>
      have hbytes : bytes.length < limit := by
        rw [writeValue, List.length_append, length_writeBytes] at h
        omega
      simp [readValue, writeValue, reads_choice (by decide : 4 < 256) _, reads_bytes hbytes _,
        FieldValue.narrowed]

theorem reads_field {field : Field} (h : (writeField field).length < limit) :
    Reads readField (writeField field) field.narrowed := by
  intro rest
  have hparts : (Bytes.ofText field.name).length < limit ∧
      (writeValue field.value).length < limit := by
    rw [writeField, List.length_append, List.length_append, List.length_append,
      length_writeText] at h
    omega
  simp [readField, writeField, reads_text hparts.1 _, reads_value hparts.2 _, reads_bool _ _,
    Field.narrowed]

theorem reads_change {change : Change} (h : (writeChange change).length < limit) :
    Reads readChange (writeChange change) change.narrowed := by
  intro rest
  cases change with
  | add document =>
      have hlist : (writeList writeField document).length < limit := by
        rw [writeChange, List.length_append] at h
        omega
      have hsome : ∀ field ∈ document, 0 < (writeField field).length := fun field _ => by
        simp only [writeField, List.length_append, writeBool, List.length_singleton]
        omega
      have hread := reads_list hlist hsome fun field _ => reads_field
      simp [readChange, writeChange, reads_choice (by decide : 0 < 256) _, hread _,
        Change.narrowed]
  | deleteTerm field term =>
      have htexts : (Bytes.ofText field).length < limit ∧ (Bytes.ofText term).length < limit := by
        rw [writeChange, List.length_append, List.length_append, length_writeText,
          length_writeText] at h
        omega
      simp [readChange, writeChange, reads_choice (by decide : 1 < 256) _, reads_text htexts.1 _,
        reads_text htexts.2 _, Change.narrowed]

theorem length_writeChange_pos (change : Change) : 0 < (writeChange change).length := by
  cases change <;> simp only [writeChange, writeChoice, List.length_append,
    Bytes.length_littleEndian] <;> omega

theorem reads_changes {changes : List Change}
    (h : (writeList writeChange changes).length < limit) :
    Reads (readList readChange) (writeList writeChange changes) (changes.map Change.narrowed) :=
  reads_list h (fun change _ => length_writeChange_pos change) fun _ _ => reads_change

end Storage.Record

end DocIndex

namespace DocIndex.Storage.Segment

open Record

theorem length_header (header : Header) : header.write.length = 16 := by
  simp [Header.write, writeChoice]

/-- A header is read back with its numbers as far as four bytes hold them. -/
theorem ofBytes?_write_wrapped (header : Header) :
    Header.ofBytes? header.write = some
      ⟨header.version % 256 ^ 4, header.count % 256 ^ 4, header.checksum % 256 ^ 4,
        header.compression⟩ := by
  have htag : header.compression.tag < 256 := by
    cases header.compression <;> decide
  have hread := reads_choice htag []
  rw [List.append_nil] at hread
  simp only [Header.ofBytes?, Header.write, List.append_assoc, reads_nat 4 _ _, hread, bind,
    Option.bind, header.compression.ofTag?_tag]
  rfl

/-- A header whose numbers fit is read back, whatever follows it. -/
theorem ofBytes?_write {header : Header} (hversion : header.version < 256 ^ 4)
    (hcount : header.count < 256 ^ 4) (hchecksum : header.checksum < 256 ^ 4) :
    Header.ofBytes? header.write = some header := by
  rw [ofBytes?_write_wrapped, Nat.mod_eq_of_lt hversion, Nat.mod_eq_of_lt hcount,
    Nat.mod_eq_of_lt hchecksum]

/-- What stands in front of a body: the mark, and the header by its length. -/
def front (header : Header) : Bytes :=
  mark ++ Bytes.littleEndian 4 header.write.length ++ header.write

/-- The header and the body come apart, whatever the body is. -/
theorem split_front (header : Header) (body : Bytes) :
    split (front header ++ body) = .ok (header.write, body) := by
  have hstart : (mark ++ Bytes.littleEndian 4 header.write.length).length = 8 := by
    rw [List.length_append, Bytes.length_littleEndian]
    rfl
  have hmark : (mark ++ Bytes.littleEndian 4 header.write.length).take 4 = mark :=
    List.take_left' rfl
  have hlength : Bytes.ofLittleEndian
      ((mark ++ Bytes.littleEndian 4 header.write.length).drop 4) = header.write.length := by
    have hdrop : (mark ++ Bytes.littleEndian 4 header.write.length).drop 4
        = Bytes.littleEndian 4 header.write.length := List.drop_left' rfl
    rw [hdrop, length_header, Bytes.ofLittleEndian_of_lt (by decide)]
  rw [front, List.append_assoc, split, Bytes.splitAt?_append hstart]
  simp only [hmark, hlength, Bytes.splitAt?_append rfl body, ne_eq, not_true_eq_false, if_false]

/-- The header of the segment of some changes. -/
def headerOf (changes : List Change) (compression : Compression) : Header :=
  ⟨formatVersion, changes.length, checksumOf (writeBody changes compression), compression⟩

theorem encode_eq (changes : List Change) (compression : Compression) :
    encode changes compression
      = front (headerOf changes compression) ++ writeBody changes compression :=
  rfl

/-- A segment is its header and its body. -/
theorem split_encode (changes : List Change) (compression : Compression) :
    ∃ header : Header, header.version = formatVersion ∧ header.count = changes.length ∧
      header.checksum = checksumOf (writeBody changes compression) ∧
      split (encode changes compression) = .ok (header.write, writeBody changes compression) :=
  ⟨headerOf changes compression, rfl, rfl, rfl, split_front _ _⟩

theorem checksumOf_lt (body : Bytes) : checksumOf body < 256 ^ 4 :=
  Nat.lt_of_lt_of_le (Codec.Crc32.checksum body).toNat_lt (by decide)

/-- **A segment gives back its changes**, with integers as words. -/
theorem decode_encode {changes : List Change} {compression : Compression}
    (hsize : (writeList writeChange changes).length < 256 ^ 4)
    (hcodec : compression.Restores (writeList writeChange changes)) :
    decode (encode changes compression) = .ok (changes.map Change.narrowed) := by
  obtain ⟨header, hversion, hcount, hchecksum, hsplit⟩ := split_encode changes compression
  have hmany : changes.length < 256 ^ 4 := by
    have hitems : changes.length ≤ (writeItems writeChange changes).length :=
      count_le_writeItems fun change _ => length_writeChange_pos change
    rw [writeList, List.length_append] at hsize
    omega
  have hheader : Header.ofBytes? header.write = some header := by
    refine ofBytes?_write ?_ (hcount ▸ hmany) (hchecksum ▸ checksumOf_lt _)
    rw [hversion]
    decide
  have hbody : readBody (writeBody changes compression) = .ok (changes.map Change.narrowed) := by
    have hread := reads_changes (Nat.lt_of_lt_of_le hsize (by decide)) []
    rw [List.append_nil] at hread
    rw [readBody, writeBody, unpack_pack hsize hcodec]
    simp only [bind, Except.bind, hread]
  simp only [decode, hsplit, bind, Except.bind, hheader, hversion, hchecksum, ne_eq,
    not_true_eq_false, if_false, hbody, List.length_map, hcount, if_true]

/--
**A segment gives back the very changes that it was made of**, down to the bits of the doubles,
with whatever codec, if its body fits the frame and the codec is lossless on it.  There are then
no more changes than the header can count, since every change takes bytes.
-/
theorem decode_encode_exact (changes : List Change) (compression : Compression)
    (hwords : ∀ change ∈ changes, change.HoldsWords)
    (hsize : (writeList writeChange changes).length < 2 ^ 32)
    (hcodec : compression.Restores (writeList writeChange changes)) :
    decode (encode changes compression) = .ok changes := by
  have hsame : changes.map Change.narrowed = changes.map id :=
    List.map_congr_left fun change hchange => Change.narrowed_eq_self (hwords change hchange)
  rw [decode_encode hsize hcodec, hsame, List.map_id]

/--
A document with one value of each kind, at the edges of what can be written: the least integer, a
NaN with a payload, and no bytes at all.
-/
def edgeChanges : List Change :=
  [.add [.term "$id" "", .text "bio" "häuser 🚗" "standard", .long "n" (-0x8000000000000000),
      .double "x" ⟨0xFFF0000000000123⟩, .double "y" ⟨0x8000000000000000⟩, .bytes "$source" [0, 255],
      ⟨"empty", .stored [], false, true⟩],
    .deleteTerm "" "a", .add []]

theorem decode_encode_exact_edges :
    (∀ change ∈ edgeChanges, change.HoldsWords) ∧
      (writeList writeChange edgeChanges).length < 2 ^ 32 ∧
      decode (encode edgeChanges .lz4) = .ok edgeChanges := by
  have hwords : ∀ change ∈ edgeChanges, change.HoldsWords := by
    simp [edgeChanges, Change.HoldsWords, FieldValue.IsWord, Field.term, Field.text, Field.long,
      Field.double, Field.bytes]
  have hsize : (writeList writeChange edgeChanges).length < 2 ^ 32 := by decide +kernel
  exact ⟨hwords, hsize, decode_encode_exact _ .lz4 hwords hsize (Compression.restores_lz4 _)⟩

end DocIndex.Storage.Segment
