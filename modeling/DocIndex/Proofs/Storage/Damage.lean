/-
A segment whose body was damaged is not read.

The front of a segment does not depend on what stands behind it, so the header is still read, and
with it the checksum of the body that was written.  The body that is there has another one, if it
was changed within four consecutive bytes only (`Codec.Crc32.checksum_ne_of_burst`).  The
comparison comes before anything of the body is unpacked, so neither the codec nor the number of
the changes, which the header may have kept only in part, has a say in it.
-/
import DocIndex.Proofs.Codec.Bursts
import DocIndex.Proofs.Storage.Segment

namespace DocIndex.Storage

/-- Other bytes in the same number, all of whose differences lie in a window of `width` bytes. -/
structure DiffersWithin (width start : Nat) (original bytes : Bytes) : Prop where
  length : bytes.length = original.length
  outside : ∀ i, i < start ∨ start + width ≤ i → bytes[i]? = original[i]?
  ne : bytes ≠ original

namespace DiffersWithin

variable {width start : Nat} {original bytes : Bytes}

/-- What stands before the window is the same. -/
theorem take_eq (h : DiffersWithin width start original bytes) :
    bytes.take start = original.take start := by
  apply List.ext_getElem?
  intro i
  rw [List.getElem?_take, List.getElem?_take]
  by_cases hi : i < start
  · rw [if_pos hi, if_pos hi]
    exact h.outside i (.inl hi)
  · rw [if_neg hi, if_neg hi]

/-- What stands behind the window is the same. -/
theorem drop_eq (h : DiffersWithin width start original bytes) :
    bytes.drop (start + width) = original.drop (start + width) := by
  apply List.ext_getElem?
  intro i
  rw [List.getElem?_drop, List.getElem?_drop]
  exact h.outside _ (.inr (Nat.le_add_right _ _))

/-- So there are only the bytes of the window to tell them apart. -/
theorem exists_window (h : DiffersWithin width start original bytes) :
    ∃ before window changed after,
      original = before ++ window ++ after ∧ bytes = before ++ changed ++ after ∧
        changed.length = window.length ∧ window.length ≤ width ∧ changed ≠ window := by
  have hsplit (all : Bytes) : all
      = all.take start ++ (all.drop start).take width ++ all.drop (start + width) := by
    rw [List.append_assoc, ← List.drop_drop, List.take_append_drop, List.take_append_drop]
  have hbytes := hsplit bytes
  rw [h.take_eq, h.drop_eq] at hbytes
  refine ⟨original.take start, (original.drop start).take width, (bytes.drop start).take width,
    original.drop (start + width), hsplit original, hbytes, ?_, ?_, fun hsame => h.ne ?_⟩
  · rw [List.length_take, List.length_take, List.length_drop, List.length_drop, h.length]
  · rw [List.length_take]
    exact Nat.min_le_left _ _
  · rw [hbytes, hsame]
    exact (hsplit original).symm

/-- Other bytes in the place of a few make such a difference. -/
theorem of_window {before window changed after : Bytes} (hlength : changed.length = window.length)
    (hshort : window.length ≤ width) (hne : changed ≠ window) :
    DiffersWithin width before.length (before ++ window ++ after) (before ++ changed ++ after) where
  length := by simp only [List.length_append, hlength]
  outside i hi := by
    rcases hi with hbefore | hbehind
    · rw [List.append_assoc, List.append_assoc, List.getElem?_append_left hbefore,
        List.getElem?_append_left hbefore]
    · have hwindow : (before ++ window).length ≤ i := by
        rw [List.length_append]
        omega
      have hchanged : (before ++ changed).length = (before ++ window).length := by
        rw [List.length_append, List.length_append, hlength]
      rw [List.getElem?_append_right hwindow, List.getElem?_append_right (hchanged ▸ hwindow),
        hchanged]
  ne hsame := hne (List.append_cancel_left (List.append_cancel_right hsame))

/-- A change behind a front leaves the front alone and is one of the rest. -/
theorem of_append {front body : Bytes} (hstart : front.length ≤ start)
    (h : DiffersWithin width start (front ++ body) bytes) :
    ∃ other, bytes = front ++ other ∧ DiffersWithin width (start - front.length) body other := by
  have htake : bytes.take front.length = front := by
    have hmin : bytes.take front.length = (bytes.take start).take front.length := by
      rw [List.take_take, Nat.min_eq_left hstart]
    rw [hmin, h.take_eq, List.take_take, Nat.min_eq_left hstart, List.take_left]
  have hbytes : bytes = front ++ bytes.drop front.length := by
    have hall := List.take_append_drop front.length bytes
    rw [htake] at hall
    exact hall.symm
  refine ⟨bytes.drop front.length, hbytes, ?_, fun i hi => ?_, fun hsame => h.ne ?_⟩
  · rw [List.length_drop, h.length, List.length_append]
    omega
  · have hsame := h.outside (front.length + i) (by omega)
    rw [List.getElem?_append_right (Nat.le_add_right _ _), Nat.add_sub_cancel_left] at hsame
    rw [List.getElem?_drop, hsame]
  · rw [hbytes, hsame]

end DiffersWithin

namespace Segment

/-- A change within four bytes of a body shows in its checksum. -/
theorem checksumOf_ne {start : Nat} {body other : Bytes} (h : DiffersWithin 4 start body other) :
    checksumOf body ≠ checksumOf other := by
  obtain ⟨before, window, changed, after, hbody, hother, hlength, hshort, hne⟩ := h.exists_window
  intro hsame
  rw [hbody, hother] at hsame
  exact Codec.Crc32.checksum_ne_of_burst hlength hshort hne (UInt32.toNat_inj.mp hsame).symm

/-- Behind the front of a segment, nothing is read of a body with another checksum. -/
theorem decode_front {header : Header} {body : Bytes} (hversion : header.version = formatVersion)
    (hchecksum : header.checksum < 256 ^ 4) (hne : header.checksum ≠ checksumOf body) :
    decode (front header ++ body) = .error (.damaged .checksumMismatch) := by
  have hread : header.version % 256 ^ 4 = formatVersion := by
    rw [hversion]
    rfl
  simp only [decode, split_front, ofBytes?_write_wrapped, bind, Except.bind, hread, ne_eq,
    not_true_eq_false, if_false, Nat.mod_eq_of_lt hchecksum, hne, not_false_eq_true, if_true]

/--
**A segment whose body was changed within four consecutive bytes is refused as corrupted**, for all
changes and codecs, wherever in the body the window lies.
-/
theorem decode_of_burst (changes : List Change) (compression : Compression) {start : Nat}
    {bytes : Bytes}
    (hbody : (encode changes compression).length - (writeBody changes compression).length ≤ start)
    (hburst : DiffersWithin 4 start (encode changes compression) bytes) :
    decode bytes = .error (.damaged .checksumMismatch) ∧
      (Error.damaged .checksumMismatch).kind = .corrupted := by
  rw [encode_eq, List.length_append, Nat.add_sub_cancel] at hbody
  rw [encode_eq] at hburst
  obtain ⟨other, rfl, hother⟩ := hburst.of_append hbody
  exact ⟨decode_front rfl (checksumOf_lt _) (checksumOf_ne hother), rfl⟩

/-- A segment that deletes one document, with the name of another one written into its last byte. -/
def misdirected : Bytes := (encode [.deleteTerm "$id" "a"] .lz4).dropLast ++ [98]

/-- No document is deleted in the place of another. -/
theorem misdirected_refused :
    decode misdirected = .error (.damaged .checksumMismatch) ∧
      DiffersWithin 4 62 (encode [.deleteTerm "$id" "a"] .lz4) misdirected := by
  have hencode : encode [.deleteTerm "$id" "a"] .lz4
      = (encode [.deleteTerm "$id" "a"] .lz4).dropLast ++ [97] ++ [] := by decide +kernel
  have hstart : 62 = (encode [.deleteTerm "$id" "a"] .lz4).dropLast.length := by decide +kernel
  have hburst : DiffersWithin 4 (encode [.deleteTerm "$id" "a"] .lz4).dropLast.length
      ((encode [.deleteTerm "$id" "a"] .lz4).dropLast ++ [97] ++ [])
      ((encode [.deleteTerm "$id" "a"] .lz4).dropLast ++ [98] ++ []) :=
    .of_window rfl (by decide) (by decide)
  rw [← hencode, ← hstart, List.append_nil] at hburst
  exact ⟨(decode_of_burst _ .lz4 (by decide +kernel) hburst).1, hburst⟩

end Segment

end DocIndex.Storage
