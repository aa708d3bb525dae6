/-
Text of bytes that may not be well-formed UTF-8.

Every longest beginning of a character that is not completed, and every byte that cannot begin
one, is read as one replacement character.
-/
import DocIndex.Data.Bytes

namespace DocIndex.Text

/-- What stands for malformed bytes. -/
def replacement : Char := Char.ofNat 0xFFFD

/-- How many bytes follow the first byte of a character. -/
def followers (lead : UInt8) : Nat :=
  if 0xC2 ≤ lead && lead ≤ 0xDF then 1
  else if 0xE0 ≤ lead && lead ≤ 0xEF then 2
  else if 0xF0 ≤ lead && lead ≤ 0xF4 then 3
  else 0

/-- Whether a byte may follow the first byte of a character. -/
def mayFollow (lead next : UInt8) : Bool :=
  let least : UInt8 := if lead == 0xE0 then 0xA0 else if lead == 0xF0 then 0x90 else 0x80
  let greatest : UInt8 := if lead == 0xED then 0x9F else if lead == 0xF4 then 0x8F else 0xBF
  least ≤ next && next ≤ greatest

/-- The bytes that continue the character begun by the first, as far as they are well-formed. -/
def continuation (lead : UInt8) (rest : Bytes) : Bytes :=
  match rest with
  | next :: more =>
    if 0 < followers lead && mayFollow lead next then
      next :: (more.take (followers lead - 1)).takeWhile fun b => 0x80 ≤ b && b ≤ 0xBF
    else []
  | [] => []

/-- The character with the given first and following bytes. -/
def joined (lead : UInt8) (tail : Bytes) : Char :=
  let bits := lead.toNat % (1 <<< (6 - tail.length))
  Char.ofNat (tail.foldl (fun n b => n * 64 + b.toNat % 64) bits)

/-- The text of bytes. -/
def ofBytes : Bytes → List Char
  | [] => []
  | lead :: rest =>
    if lead < 0x80 then Char.ofNat lead.toNat :: ofBytes rest
    else
      let tail := continuation lead rest
      let c :=
        if 0 < followers lead && tail.length = followers lead then joined lead tail else replacement
      c :: ofBytes (rest.drop tail.length)
termination_by bytes => bytes.length
decreasing_by
  · simp
  · simp only [List.length_drop, List.length_cons]
    omega

end DocIndex.Text
